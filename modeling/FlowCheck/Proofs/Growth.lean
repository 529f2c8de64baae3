import FlowCheck.Proofs.Justified

/-!
# Frames only learn

Whatever a traversal does to its frames, it opens new ones and adds to the open ones: a visited
counter keeps its depth, a return keeps its depth, calls are never forgotten.
-/

namespace FlowCheck.Validator

variable {fs fs' : Frames} {f : FrameId} {pc : Nat} {depth : Int} {site : CallSite}

/-- A frame only ever learns. -/
structure Frame.Grows (F F' : Frame) : Prop where
  depths : ∀ (pc : Nat) depth, F.depths[pc]? = some depth → F'.depths[pc]? = some depth
  net : ∀ depth, F.net = some depth → F'.net = some depth
  callers : ∀ site ∈ F.callers, site ∈ F'.callers
  calls : ∀ site ∈ F.calls, site ∈ F'.calls
  low : F'.low ≤ F.low
  high : F.high ≤ F'.high

theorem Frame.Grows.refl (F : Frame) : F.Grows F :=
  ⟨fun _ _ h => h, fun _ h => h, fun _ h => h, fun _ h => h, Int.le_refl _, Int.le_refl _⟩

theorem Frame.Grows.trans {F G H : Frame} (h : F.Grows G) (h' : G.Grows H) : F.Grows H where
  depths pc depth hat := h'.depths pc depth (h.depths pc depth hat)
  net depth hnet := h'.net depth (h.net depth hnet)
  callers site hsite := h'.callers site (h.callers site hsite)
  calls site hsite := h'.calls site (h.calls site hsite)
  low := Int.le_trans h'.low h.low
  high := Int.le_trans h.high h'.high

/-- Frames stay open, and each of them grows. -/
def Frames.Grows (fs fs' : Frames) : Prop :=
  ∀ f F, fs.find? f = some F → ∃ F', fs'.find? f = some F' ∧ F.Grows F'

theorem Frames.Grows.refl (fs : Frames) : fs.Grows fs :=
  fun _ F hF => ⟨F, hF, Frame.Grows.refl F⟩

theorem Frames.Grows.trans {gs : Frames} (h : fs.Grows fs') (h' : fs'.Grows gs) : fs.Grows gs := by
  intro f F hF
  obtain ⟨F', hF', hgrow⟩ := h f F hF
  obtain ⟨F'', hF'', hgrow'⟩ := h' f F' hF'
  exact ⟨F'', hF'', hgrow.trans hgrow'⟩

theorem Frames.Grows.modify {id : FrameId} (change : Frame → Frame)
    (hid : ∀ F, (change F).id = F.id) (hgrow : ∀ F, fs.find? id = some F → F.Grows (change F)) :
    fs.Grows (fs.modify id change) := by
  intro g F hF
  rw [Frames.find?_modify change hid]
  by_cases hg : g = id
  · subst hg
    exact ⟨change F, by simp [hF], hgrow F hF⟩
  · exact ⟨F, by simp [hg, hF], Frame.Grows.refl F⟩

theorem Frames.Grows.add (fs : Frames) (F : Frame) : fs.Grows (fs.add F) := by
  intro g G hG
  exact ⟨G, by simp [Frames.find?_add, hG], Frame.Grows.refl G⟩

theorem Frames.Grows.open_ (h : fs.Grows fs') (hf : fs.find? f ≠ none) : fs'.find? f ≠ none := by
  obtain ⟨F, hF⟩ := Option.ne_none_iff_exists'.1 hf
  obtain ⟨F', hF', -⟩ := h f F hF
  simp [hF']

theorem Frames.Grows.depth? (h : fs.Grows fs') (hat : fs.depth? f pc = some depth) :
    fs'.depth? f pc = some depth := by
  obtain ⟨F, hF, hdepth⟩ := Option.bind_eq_some_iff.1 hat
  obtain ⟨F', hF', hgrow⟩ := h f F hF
  exact Option.bind_eq_some_iff.2 ⟨F', hF', hgrow.depths pc depth hdepth⟩

/-- Changes that leave the visited counters alone. -/
theorem Frames.depth?_modify (change : Frame → Frame) (hid : ∀ F, (change F).id = F.id)
    (hdepths : ∀ F, (change F).depths = F.depths) (fs : Frames) (id f : FrameId) (pc : Nat) :
    (fs.modify id change).depth? f pc = fs.depth? f pc := by
  simp only [Frames.depth?, Frames.find?_modify change hid]
  split
  · rename_i hf
    cases fs.find? f with
    | none => rfl
    | some F => simp [hdepths]
  · rfl

theorem Frames.depth?_add {F : Frame} (hF : F.depths = {}) (fs : Frames) (f : FrameId) (pc : Nat) :
    (fs.add F).depth? f pc = fs.depth? f pc := by
  simp only [Frames.depth?, Frames.find?_add]
  cases fs.find? f with
  | some G => rfl
  | none =>
      simp only [Option.none_or]
      split
      · simp [hF]
      · rfl

/-- A recorded call is new to the callers of its callee and to the calls of its caller. -/
theorem Frames.find?_recordCall {g : FrameId} {F' : Frame}
    (h : (fs.recordCall site).find? g = some F') :
    ∃ F, fs.find? g = some F ∧ F.Grows F' ∧ F'.net = F.net ∧ F'.depths = F.depths ∧
      ∀ other ∈ F'.callers, other ∈ F.callers ∨ (g = .entry site.callee ∧ other = site) := by
  -- undo the two changes one by one, that of the caller first
  obtain ⟨G, hG, hGF⟩ : ∃ G, (fs.modify (.entry site.callee) (·.withCaller site)).find? g = some G ∧
      (F' = G ∨ F' = G.withCall site) := by
    rw [Frames.recordCall, Frames.find?_modify (·.withCall site) (fun _ => rfl)] at h
    split at h
    · obtain ⟨G, hG, rfl⟩ := Option.map_eq_some_iff.1 h
      exact ⟨G, hG, Or.inr rfl⟩
    · exact ⟨F', h, Or.inl rfl⟩
  have hcall : G.Grows F' ∧ F'.net = G.net ∧ F'.depths = G.depths ∧ F'.callers = G.callers := by
    rcases hGF with rfl | rfl
    · exact ⟨Frame.Grows.refl _, rfl, rfl, rfl⟩
    · refine ⟨?_, rfl, rfl, rfl⟩
      exact { Frame.Grows.refl G with calls := fun _ h => List.mem_append_left _ h }
  obtain ⟨hgrow, hnet, hdepths, hcallers⟩ := hcall
  rw [Frames.find?_modify (·.withCaller site) (fun _ => rfl)] at hG
  split at hG
  · rename_i hg
    obtain ⟨F, hF, rfl⟩ := Option.map_eq_some_iff.1 hG
    have hgrow' : F.Grows (F.withCaller site) :=
      { Frame.Grows.refl F with callers := fun _ h => List.mem_append_left _ h }
    refine ⟨F, hF, hgrow'.trans hgrow, hnet, hdepths, fun other hother => ?_⟩
    rw [hcallers] at hother
    refine (List.mem_append.1 hother).imp id (fun hnew => ⟨hg, ?_⟩)
    simpa using hnew
  · exact ⟨G, hG, hgrow, hnet, hdepths, fun other hother => Or.inl (hcallers ▸ hother)⟩

theorem Frames.Grows.recordCall (fs : Frames) (site : CallSite) :
    fs.Grows (fs.recordCall site) := by
  intro g F hF
  have hopen := (Frames.find?_recordCall_ne_none fs site g).2 (by simp [hF])
  obtain ⟨F', hF'⟩ := Option.ne_none_iff_exists'.1 hopen
  obtain ⟨G, hG, hgrow, -⟩ := Frames.find?_recordCall hF'
  rw [hF] at hG
  cases hG
  exact ⟨F', hF', hgrow⟩

/-- A first return. -/
theorem Frames.Grows.returned {F : Frame} (hF : fs.find? f = some F) (hnone : F.net = none) :
    fs.Grows (fs.modify f (·.returned depth)) := by
  refine Frames.Grows.modify (·.returned depth) (fun _ => rfl) fun G hG => ?_
  refine { Frame.Grows.refl G with net := fun net hnet => ?_ }
  rw [hF] at hG
  cases hG
  rw [hnone] at hnet
  cases hnet

/-- A new counter. -/
theorem Frames.Grows.visited (hnone : fs.depth? f pc = none) :
    fs.Grows (fs.modify f (·.visited pc depth)) := by
  refine Frames.Grows.modify (·.visited pc depth) (fun _ => rfl) fun F hF => ?_
  have hnew : F.depths[pc]? = none := by simpa [Frames.depth?, hF] using hnone
  refine { Frame.Grows.refl F with depths := fun pc' depth' hat => ?_ }
  have hne : pc ≠ pc' := by
    rintro rfl
    rw [hnew] at hat
    cases hat
  simpa [Frame.visited, Std.HashMap.getElem?_insert, hne] using hat

/-- A visit of a new counter. -/
theorem Frames.Grows.record {low after : Int} (hnone : fs.depth? f pc = none) :
    fs.Grows (fs.record f pc depth low after) := by
  refine (Frames.Grows.visited hnone).trans
    (Frames.Grows.modify (·.ranged low after) (fun _ => rfl) fun F _ => ?_)
  refine { Frame.Grows.refl F with low := ?_, high := ?_ }
  · exact Int.min_le_left ..
  · exact Int.le_max_left ..

theorem Frames.depth?_visited (hopen : fs.find? f ≠ none) (g : FrameId) (pc' : Nat) :
    (fs.modify f (·.visited pc depth)).depth? g pc' =
      if g = f ∧ pc' = pc then some depth else fs.depth? g pc' := by
  simp only [Frames.depth?, Frames.find?_modify (·.visited pc depth) (fun _ => rfl)]
  obtain ⟨F, hF⟩ := Option.ne_none_iff_exists'.1 hopen
  by_cases hg : g = f
  · subst hg
    by_cases hpc : pc' = pc
    · subst hpc
      simp [hF, Frame.visited]
    · simp [hF, Frame.visited, Std.HashMap.getElem?_insert, hpc, Ne.symm hpc]
  · simp [hg]

theorem Frames.depth?_record {low after : Int} (hopen : fs.find? f ≠ none) (g : FrameId)
    (pc' : Nat) :
    (fs.record f pc depth low after).depth? g pc' =
      if g = f ∧ pc' = pc then some depth else fs.depth? g pc' := by
  rw [Frames.record, Frames.depth?_modify (·.ranged low after) (fun _ => rfl) (fun _ => rfl)]
  exact Frames.depth?_visited hopen g pc'

end FlowCheck.Validator
