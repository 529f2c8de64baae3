import FlowCheck.Arithmetic
import FlowCheck.Validator.Frame
import Mathlib

/-!
# Looking up frames

Frames are kept in a list, and every change goes to the first frame of an id.  Read through `find?`,
a list of frames is a partial map from ids, and this file gives the equations of that map.  Sums
over all frames, `total`, follow the same changes.
-/

namespace FlowCheck.Validator.Frames

variable {fs : Frames} {id g : FrameId} {F : Frame}

theorem find?_id (h : fs.find? id = some F) : F.id = id := by
  have := List.find?_some h
  simpa using this

theorem mem_of_find? (h : fs.find? id = some F) : F ∈ fs.toList :=
  List.mem_of_find?_eq_some h

/-- Without repeated ids, every frame is found by its id. -/
theorem find?_of_mem (hnodup : fs.ids.Nodup) (h : F ∈ fs.toList) : fs.find? F.id = some F := by
  obtain ⟨list⟩ := fs
  simp only [ids, find?] at hnodup h ⊢
  induction list with
  | nil => simp at h
  | cons G rest ih =>
      simp only [List.map_cons, List.nodup_cons] at hnodup
      by_cases hid : G.id = F.id
      · rcases List.mem_cons.1 h with rfl | hrest
        · simp
        · exact absurd (List.mem_map.2 ⟨F, hrest, hid.symm⟩) hnodup.1
      · rcases List.mem_cons.1 h with rfl | hrest
        · exact absurd rfl hid
        · simpa [List.find?_cons, hid] using ih hnodup.2 hrest

theorem find?_modify (change : Frame → Frame) (hid : ∀ F, (change F).id = F.id)
    (fs : Frames) (id g : FrameId) :
    (fs.modify id change).find? g = if g = id then (fs.find? g).map change else fs.find? g := by
  obtain ⟨list⟩ := fs
  simp only [modify, find?]
  induction list with
  | nil => simp [modifyIn]
  | cons F rest ih =>
      by_cases hF : F.id = id
      · by_cases hg : g = id
        · subst hg
          simp [modifyIn, hF, hid]
        · have hne : ¬ F.id = g := fun h => hg (h.symm.trans hF)
          have hne' : ¬ id = g := fun h => hg h.symm
          simp [modifyIn, hF, hid, hg, hne']
      · by_cases hFg : F.id = g
        · subst hFg
          simp [modifyIn, hF]
        · simpa [modifyIn, hF, hFg, List.find?_cons] using ih

theorem find?_modify_self (change : Frame → Frame) (hid : ∀ F, (change F).id = F.id)
    (h : fs.find? id = some F) : (fs.modify id change).find? id = some (change F) := by
  rw [find?_modify change hid, if_pos rfl, h]
  rfl

theorem find?_add (fs : Frames) (F : Frame) (g : FrameId) :
    (fs.add F).find? g = (fs.find? g).or (if F.id = g then some F else none) := by
  simp only [add, find?, List.find?_append]
  congr 1
  by_cases h : F.id = g
  · simp [h]
  · simp [h]

theorem find?_add_self_ne_none (fs : Frames) (F : Frame) : (fs.add F).find? F.id ≠ none := by
  rw [find?_add]
  simp

theorem find?_add_ne_none (h : fs.find? id ≠ none) (F : Frame) : (fs.add F).find? id ≠ none := by
  obtain ⟨G, hG⟩ := Option.ne_none_iff_exists'.1 h
  rw [find?_add, hG]
  simp

theorem ids_modify (change : Frame → Frame) (hid : ∀ F, (change F).id = F.id) (fs : Frames)
    (id : FrameId) : (fs.modify id change).ids = fs.ids := by
  obtain ⟨list⟩ := fs
  simp only [modify, ids]
  induction list with
  | nil => simp [modifyIn]
  | cons F rest ih =>
      by_cases hF : F.id = id
      · simp [modifyIn, hF, hid]
      · simpa [modifyIn, hF] using ih

theorem ids_add (fs : Frames) (F : Frame) : (fs.add F).ids = fs.ids ++ [F.id] := by
  simp [add, ids]

theorem size_eq_length_ids (fs : Frames) : fs.size = fs.ids.length := by
  simp [size, ids]

theorem find?_eq_none_iff : fs.find? id = none ↔ id ∉ fs.ids := by
  simp [find?, ids]

/-! ## Sums over all frames -/

/-- The sum of a quantity over all frames. -/
def total (w : Frame → Nat) (fs : Frames) : Nat :=
  (fs.toList.map w).sum

theorem total_modify (change : Frame → Frame) (w : Frame → Nat) (h : fs.find? id = some F) :
    total w (fs.modify id change) + w F = total w fs + w (change F) := by
  obtain ⟨list⟩ := fs
  simp only [total, modify, find?] at h ⊢
  induction list with
  | nil => simp at h
  | cons G rest ih =>
      by_cases hG : G.id = id
      · obtain rfl : G = F := by simpa [hG] using h
        simp only [modifyIn, hG, beq_self_eq_true, if_true, List.map_cons, List.sum_cons]
        omega
      · have hrest := ih (by simpa [List.find?_cons, hG] using h)
        have hG' : (G.id == id) = false := by simpa using hG
        simp only [modifyIn, hG', Bool.false_eq_true, if_false, List.map_cons, List.sum_cons]
        omega

/-- A change that leaves the quantity of every frame alone leaves the sum alone. -/
theorem total_modify_eq (change : Frame → Frame) {w : Frame → Nat} (h : ∀ F, w (change F) = w F)
    (fs : Frames) (id : FrameId) : total w (fs.modify id change) = total w fs := by
  obtain ⟨list⟩ := fs
  simp only [total, modify]
  induction list with
  | nil => simp [modifyIn]
  | cons G rest ih =>
      simp only [modifyIn]
      split
      · simp [h]
      · simp [ih]

theorem total_add (w : Frame → Nat) (fs : Frames) (F : Frame) :
    total w (fs.add F) = total w fs + w F := by
  simp [total, add]

/-- A bound on every frame bounds the sum. -/
theorem total_le {w : Frame → Nat} {bound : Nat} (h : ∀ F ∈ fs.toList, w F ≤ bound) :
    total w fs ≤ fs.size * bound := by
  have hsum := List.sum_le_card_nsmul (fs.toList.map w) bound (by simpa using h)
  rwa [List.length_map, Nat.nsmul_eq_mul] at hsum

/-- A quantity that falls in one frame and rises in none has a smaller sum. -/
theorem total_lt {w w' : Frame → Nat} (h : ∀ F ∈ fs.toList, w' F ≤ w F) (hF : F ∈ fs.toList)
    (hlt : w' F < w F) : total w' fs < total w fs :=
  List.sum_lt_sum w' w h ⟨F, hF, hlt⟩

end FlowCheck.Validator.Frames
