import SsAdma.TlsfMalloc

set_option autoImplicit false

namespace SsAdma

section

variable {t s : Tlsf} {first last : ℕ} {h : Hole} {lists : ℕ × ℕ → List ℕ}

theorem Gap.spares_write (gap : Gap t first last h lists) (adr val : ℕ) (low : h.adr ≤ adr) (high : adr < h.stop) :
    Spares first last h.blocks h.blocks t (t.write adr val) := by
  refine ⟨fun _ _ => Iff.rfl, fun w foreign => ?_⟩
  have outside := (gap.foreign foreign).2
  exact Tlsf.write_other _ _ _ (by omega)

theorem Gap.tag (gap : Gap t first last h lists) {size : ℕ} (word : t.mem (h.adr + 8) = header size false h.before.isSome)
    (stop : h.stop = h.adr + 16 + size) :
    let s := (t.write (h.adr + 8) (t.mem (h.adr + 8) ||| 1)).setFreePtr h.adr 0 0
    Gap s first last h lists ∧ s.mem (h.adr + 8) = header size true h.before.isSome ∧ Spares first last h.blocks h.blocks t s := by
  intro s
  obtain ⟨whole, some, _⟩ := gap.size_facts stop
  have tagged : t.mem (h.adr + 8) ||| 1 = header size true h.before.isSome := by rw [word, header_or_one whole]
  have marked := gap.write (t.mem (h.adr + 8) ||| 1) (by omega : h.adr < h.adr + 8) (by omega)
    fun _ => by rw [tagged, header_prev whole, gap.prev]
  refine ⟨marked.setFreePtr 0 0, ?_, ?_⟩
  · dsimp only [s, Tlsf.setFreePtr]
    rw [Tlsf.write_other _ _ _ (by omega), Tlsf.write_other _ _ _ (by omega), Tlsf.write_same, tagged]
  · have first := gap.spares_write (h.adr + 8) (t.mem (h.adr + 8) ||| 1) (by omega) (by omega)
    have second := marked.spares_write (h.adr + 16) 0 (by omega) (by omega)
    have linked := marked.write 0 (by omega : h.adr < h.adr + 16) (by omega) (by omega)
    exact (first.trans second).trans (linked.spares_write (h.adr + 24) 0 (by omega) (by omega))

theorem Gap.freeEx (gap : Gap t first last h lists) {size : ℕ} (word : t.mem (h.adr + 8) = header size false h.before.isSome)
    (stop : h.stop = h.adr + 16 + size) :
    ∃ others lists, Holds (t.freeEx (h.adr + 16)) first last others lists ∧ Spares first last h.blocks others t (t.freeEx (h.adr + 16)) := by
  have buffer : h.adr + 16 ≠ 0 := by omega
  unfold Tlsf.freeEx
  rw [if_neg buffer, Nat.add_sub_cancel]
  obtain ⟨tagged, taggedWord, firstSpares⟩ := gap.tag word stop
  dsimp only at tagged taggedWord firstSpares ⊢
  generalize (t.write (h.adr + 8) (t.mem (h.adr + 8) ||| 1)).setFreePtr h.adr 0 0 = s at tagged taggedWord firstSpares ⊢
  obtain ⟨rest, size, _, widened, sizeWord, _, closed, nextSpares, _⟩ := tagged.mergeNext taggedWord stop
  generalize s.mergeNext h.adr = u at widened sizeWord nextSpares ⊢
  obtain ⟨front, b, more, _, at_b, joined, joinedWord, prevSpares⟩ := widened.mergePrev sizeWord rfl
  dsimp only at at_b joined joinedWord prevSpares
  generalize u.mergePrev h.adr = merged at at_b joined joinedWord prevSpares ⊢
  obtain ⟨b, v⟩ := merged
  dsimp only at at_b joined joinedWord prevSpares ⊢
  subst at_b
  obtain ⟨settled, kept⟩ := joined.giveBlock rfl closed joinedWord rfl
  refine ⟨_, _, settled, ((firstSpares.trans nextSpares).trans prevSpares).trans ⟨fun j isUsed => ?_, kept⟩⟩
  simp only [List.mem_append, List.mem_cons]
  constructor
  · rintro (early | rfl | late)
    · exact .inl early
    · simp at isUsed
    · exact .inr late
  · exact fun member => member.imp_right .inr

theorem Holds.freeEx {xs zs : List PoolBlock} {k : PoolBlock} (holds : Holds t first last (xs ++ k :: zs) lists) (used : k.free = false) :
    ∃ others lists, Holds (t.freeEx k.buffer) first last others lists ∧ Spares first last (xs ++ zs) others t (t.freeEx k.buffer) := by
  obtain ⟨before, gap, word, _⟩ := holds.used_gap used
  exact gap.freeEx word rfl

end

end SsAdma
