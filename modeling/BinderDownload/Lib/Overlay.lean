import Mathlib

namespace BinderDownload

variable {α : Type}

/-- A write of `bs` at position `pos`: a gap before `pos` is filled with `zero`, what lies behind the
written range stays. A write of nothing changes nothing. -/
def overlay (zero : α) (file : List α) (pos : ℕ) (bs : List α) : List α :=
  match bs with
  | [] => file
  | _ :: _ => file.take pos ++ List.replicate (pos - file.length) zero ++ bs ++ file.drop (pos + bs.length)

section Overlay

variable (zero : α) (file : List α) (pos : ℕ)

@[simp] theorem overlay_nil : overlay zero file pos [] = file := rfl

theorem overlay_ne {bs : List α} (h : bs ≠ []) : overlay zero file pos bs =
    file.take pos ++ List.replicate (pos - file.length) zero ++ bs ++ file.drop (pos + bs.length) := by
  cases bs with
  | nil => exact absurd rfl h
  | cons b bs => rfl

theorem overlay_front_length : (file.take pos ++ List.replicate (pos - file.length) zero).length = pos := by
  simp only [List.length_append, List.length_take, List.length_replicate]
  omega

theorem overlay_length {bs : List α} (h : bs ≠ []) :
    (overlay zero file pos bs).length = max file.length (pos + bs.length) := by
  rw [overlay_ne zero file pos h, List.append_assoc, List.length_append, overlay_front_length]
  simp only [List.length_append, List.length_drop]
  omega

theorem overlay_append (as bs : List α) :
    overlay zero (overlay zero file pos as) (pos + as.length) bs = overlay zero file pos (as ++ bs) := by
  by_cases ha : as = []
  · simp [ha]
  by_cases hb : bs = []
  · simp [hb]
  have hlen := overlay_length zero file pos ha
  have hpad : pos + as.length - (overlay zero file pos as).length = 0 := by omega
  rw [overlay_ne zero (overlay zero file pos as) _ hb, hpad, List.replicate_zero, List.append_nil,
    overlay_ne zero file pos (List.append_ne_nil_of_left_ne_nil ha bs), overlay_ne zero file pos ha]
  have hfront : (file.take pos ++ List.replicate (pos - file.length) zero ++ as).length = pos + as.length := by
    rw [List.length_append, overlay_front_length]
  rw [List.take_left' hfront, List.drop_append, hfront, List.drop_eq_nil_of_le (by rw [hfront]; omega),
    List.nil_append, List.drop_drop, List.length_append, List.append_assoc _ as bs]
  congr 2
  omega

theorem overlay_over {bs : List α} (h : file.length ≤ pos + bs.length) (hb : bs ≠ []) :
    overlay zero file pos bs = file.take pos ++ List.replicate (pos - file.length) zero ++ bs := by
  rw [overlay_ne zero file pos hb, List.drop_eq_nil_of_le h, List.append_nil]

theorem mem_overlay {x : α} {bs : List α} (h : x ∈ overlay zero file pos bs) : x ∈ file ∨ x = zero ∨ x ∈ bs := by
  by_cases hb : bs = []
  · rw [hb, overlay_nil] at h
    exact .inl h
  · rw [overlay_ne zero file pos hb] at h
    simp only [List.mem_append, List.mem_replicate] at h
    rcases h with ((h | ⟨-, h⟩) | h) | h
    · exact .inl (List.mem_of_mem_take h)
    · exact .inr (.inl h)
    · exact .inr (.inr h)
    · exact .inl (List.mem_of_mem_drop h)

theorem overlay_getElem {bs : List α} {x : α} {i : ℕ} (hpos : pos ≤ file.length)
    (h : (overlay zero file pos bs)[i]? = some x) : file[i]? = some x ∨ pos ≤ i ∧ bs[i - pos]? = some x := by
  by_cases hb : bs = []
  · rw [hb, overlay_nil] at h
    exact .inl h
  · rw [overlay_ne zero file pos hb, Nat.sub_eq_zero_of_le hpos, List.replicate_zero, List.append_nil,
      List.append_assoc] at h
    have hfront : (file.take pos).length = pos := by rw [List.length_take]; omega
    by_cases hi : i < pos
    · rw [List.getElem?_append_left (by omega), List.getElem?_take_of_lt hi] at h
      exact .inl h
    · rw [List.getElem?_append_right (by omega), hfront] at h
      by_cases hbs : i - pos < bs.length
      · rw [List.getElem?_append_left hbs] at h
        exact .inr ⟨by omega, h⟩
      · rw [List.getElem?_append_right (by omega), List.getElem?_drop] at h
        rw [show pos + bs.length + (i - pos - bs.length) = i by omega] at h
        exact .inl h

theorem overlay_within {whole bs : List α} (hfile : file <+: whole) (hpos : pos ≤ file.length)
    (hbs : bs <+: whole.drop pos) : overlay zero file pos bs <+: whole := by
  by_cases hb : bs = []
  · rw [hb, overlay_nil]
    exact hfile
  obtain ⟨tail, rfl⟩ := hfile
  rw [List.drop_append_of_le_length hpos] at hbs
  rw [overlay_ne zero file pos hb, Nat.sub_eq_zero_of_le hpos, List.replicate_zero, List.append_nil]
  by_cases hle : bs.length ≤ file.length - pos
  · have hinside : bs <+: file.drop pos :=
      List.prefix_of_prefix_length_le hbs (List.prefix_append _ _) (by rw [List.length_drop]; exact hle)
    obtain ⟨rest, hrest⟩ := hinside
    have hdrop : file.drop (pos + bs.length) = rest := by
      rw [← List.drop_drop, ← hrest, List.drop_left' rfl]
    rw [hdrop, List.append_assoc, hrest, List.take_append_drop]
    exact List.prefix_append _ _
  · rw [List.drop_eq_nil_of_le (by omega), List.append_nil]
    conv => rhs; rw [← List.take_append_drop pos file, List.append_assoc]
    exact (List.prefix_append_right_inj _).mpr hbs

theorem overlay_complete {whole : List α} (hfile : file <+: whole) (hpos : pos ≤ file.length) :
    overlay zero file pos (whole.drop pos) = whole := by
  have hle := hfile.length_le
  by_cases hb : whole.drop pos = []
  · rw [hb, overlay_nil]
    exact hfile.eq_of_length_le (by rw [List.drop_eq_nil_iff] at hb; omega)
  · rw [overlay_over zero file pos (by rw [List.length_drop]; omega) hb, Nat.sub_eq_zero_of_le hpos,
      List.replicate_zero, List.append_nil]
    obtain ⟨tail, rfl⟩ := hfile
    rw [List.drop_append_of_le_length hpos, ← List.append_assoc, List.take_append_drop]

end Overlay

end BinderDownload
