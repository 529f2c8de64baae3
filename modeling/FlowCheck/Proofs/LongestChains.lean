import FlowCheck.Proofs.Contract

/-!
# Peaks are the highest ends of chains of calls

The peak of a frame is the greatest depth at which a chain of calls from it can end, where every
call leads out of the group of mutually recursive frames of its caller (`Frames.Descends`).

Peaks are taken component by component, and inside a component in whatever order it lists its
frames.  `takePeak?` takes the peak of one frame from those that are there already and fails if one
is missing.  No pass over the components ever fails, since their order puts callees first, and all
passes end with the same peaks (`peaks_longest`).  `Taking` is the invariant: what is taken is
right, and what is left calls nothing but itself and what is taken.
-/

namespace FlowCheck.Validator

variable {job : Job} {fs : Frames} {f g : FrameId} {F : Frame} {site : CallSite}
  {heights heights' : PerFrame Peak} {component order : List FrameId}

/-! ## Chains of calls -/

/-- Two frames lead to each other through calls. -/
def Frames.Mutual (fs : Frames) (f g : FrameId) : Prop :=
  Relation.ReflTransGen fs.Calls f g ∧ Relation.ReflTransGen fs.Calls g f

/-- A chain of calls from a frame, each of which leads out of the group of its caller, and the frame
where it ends. -/
inductive Frames.Descends (fs : Frames) : FrameId → List CallSite → FrameId → Prop
  | stay (f : FrameId) : Descends fs f [] f
  | call {f g : FrameId} {F : Frame} {site : CallSite} {sites : List CallSite}
      (hF : fs.find? f = some F) (hsite : site ∈ F.calls)
      (hleaves : ¬ fs.Mutual f (.entry site.callee))
      (hrest : Descends fs (.entry site.callee) sites g) : Descends fs f (site :: sites) g

/-- The depths at which chains of calls from a frame end, counted from its own entry. -/
def Frames.chainHeights (fs : Frames) (f : FrameId) : Set Int :=
  {n | ∃ sites g G, fs.Descends f sites g ∧ fs.find? g = some G ∧
    n = (sites.map CallSite.depth).sum + G.high}

/-- The search for a peak ends with the depth that it started with or with that of some callee. -/
theorem foldl_peakStep_attained (sites : List CallSite) (best : Peak) :
    (sites.foldl (peakStep heights component) best).depth = best.depth ∨
      ∃ site ∈ sites, .entry site.callee ∉ component ∧
        (sites.foldl (peakStep heights component) best).depth =
          site.depth + height heights (.entry site.callee) := by
  induction sites generalizing best with
  | nil => exact Or.inl rfl
  | cons site rest ih =>
      rw [List.foldl_cons]
      rcases ih (peakStep heights component best site) with hsame | ⟨other, hother, hnot, hreach⟩
      · rw [hsame]
        unfold peakStep
        split
        · exact Or.inl rfl
        · rename_i hnot
          split
          · exact Or.inr ⟨site, List.mem_cons_self ..,
              fun hmem => hnot (List.contains_iff_mem.2 hmem), rfl⟩
          · exact Or.inl rfl
      · exact Or.inr ⟨other, List.mem_cons_of_mem _ hother, hnot, hreach⟩

/-- Given the greatest ends of chains from all callees outside of its group, the search for the peak
of a frame finds the greatest end of chains from the frame. -/
theorem isGreatest_peakOf (hF : fs.find? f = some F)
    (hclass : ∀ g, g ∈ component ↔ fs.Mutual f g)
    (hcallees : ∀ site ∈ F.calls, .entry site.callee ∉ component →
      IsGreatest (fs.chainHeights (.entry site.callee)) (height heights (.entry site.callee))) :
    IsGreatest (fs.chainHeights f) (peakOf heights component F).depth := by
  rw [peakOf_eq_foldl]
  obtain ⟨hown, hreaches⟩ : _ ∧ ∀ site ∈ F.calls, .entry site.callee ∉ component → _ :=
    le_foldl_peakStep F.calls ⟨F.high, none⟩
  constructor
  · rcases foldl_peakStep_attained F.calls ⟨F.high, none⟩ with hstay | ⟨site, hsite, hnot, hreach⟩
    · exact ⟨[], f, F, .stay f, hF, by simpa using hstay⟩
    · obtain ⟨sites, g, G, hchain, hG, hend⟩ := (hcallees site hsite hnot).1
      have hleaves : ¬ fs.Mutual f (.entry site.callee) := fun hmutual =>
        hnot ((hclass _).2 hmutual)
      refine ⟨site :: sites, g, G, .call hF hsite hleaves hchain, hG, ?_⟩
      rw [hreach, hend, List.map_cons, List.sum_cons, Int.add_assoc]
  · rintro n ⟨sites, g, G, hchain, hG, rfl⟩
    cases hchain with
    | stay _ =>
        rw [hF] at hG
        cases hG
        simpa using hown
    | call hF' hsite hleaves hrest =>
        rw [hF] at hF'
        cases hF'
        have hnot := fun hmem => hleaves ((hclass _).1 hmem)
        have hbelow := (hcallees _ hsite hnot).2 ⟨_, g, G, hrest, hG, rfl⟩
        have hreach := hreaches _ hsite hnot
        rw [List.map_cons, List.sum_cons]
        omega

/-! ## Passes over the components -/

/-- One call in the search for a peak, which fails if the peak of the callee is not taken yet. -/
def peakStep? (heights : PerFrame Peak) (component : List FrameId) (best : Peak) (site : CallSite) :
    Option Peak :=
  if component.contains (.entry site.callee) then some best
  else
    (heights[FrameId.entry site.callee]?).map (fun peak =>
      if best.depth < site.depth + peak.depth then ⟨site.depth + peak.depth, some site.pc⟩
      else best)

/-- Takes the peak of a frame of a component. -/
def takePeak? (fs : Frames) (component : List FrameId) (heights : PerFrame Peak) (f : FrameId) :
    Option (PerFrame Peak) := do
  let F ← fs.find? f
  let peak ← F.calls.foldlM (peakStep? heights component) ⟨F.high, none⟩
  return heights.insert f peak

/-- Takes the peaks of the frames of a component, in order. -/
def takePeaks? (fs : Frames) (heights : PerFrame Peak) (component : List FrameId) :
    Option (PerFrame Peak) :=
  component.foldlM (takePeak? fs component) heights

/-- The callees of a frame outside of its component have their peaks. -/
def Frame.Ready (heights : PerFrame Peak) (component : List FrameId) (F : Frame) : Prop :=
  ∀ site ∈ F.calls, .entry site.callee ∉ component → .entry site.callee ∈ heights

/-- If no peak is missing, the search that may fail finds what the search finds. -/
theorem foldlM_peakStep? {sites : List CallSite} (best : Peak)
    (h : ∀ site ∈ sites, .entry site.callee ∉ component → .entry site.callee ∈ heights) :
    sites.foldlM (peakStep? heights component) best =
      some (sites.foldl (peakStep heights component) best) := by
  induction sites generalizing best with
  | nil => rfl
  | cons site rest ih =>
      have hstep : peakStep? heights component best site =
          some (peakStep heights component best site) := by
        unfold peakStep? peakStep
        split
        · rfl
        · rename_i hnot
          have hmem := h site (List.mem_cons_self ..)
            (fun hmem => hnot (List.contains_iff_mem.2 hmem))
          obtain ⟨peak, hpeak⟩ : ∃ peak, heights[FrameId.entry site.callee]? = some peak :=
            ⟨_, Std.HashMap.getElem?_eq_some_getElem hmem⟩
          simp only [height, hpeak, Option.map_some, Option.getD_some]
      rw [List.foldlM_cons, hstep, List.foldl_cons]
      exact ih _ (fun other hother => h other (List.mem_cons_of_mem _ hother))

theorem takePeak?_eq (hF : fs.find? f = some F) (hready : F.Ready heights component) :
    takePeak? fs component heights f = some (heights.insert f (peakOf heights component F)) := by
  rw [takePeak?, hF]
  show (F.calls.foldlM (peakStep? heights component) ⟨F.high, none⟩ >>=
    fun peak => some (heights.insert f peak)) = _
  rw [foldlM_peakStep? _ hready, peakOf_eq_foldl]
  rfl

/-- Inside a component frames are taken one after the other.  None of them reads the peak of
another, so each gets the peak that it has from the peaks at the start. -/
theorem foldlM_takePeak? (horder : ∀ f ∈ order, f ∈ component)
    (hready : ∀ f ∈ order, ∃ F, fs.find? f = some F ∧ F.Ready heights component) :
    ∃ heights', order.foldlM (takePeak? fs component) heights = some heights' ∧
      ∀ g, heights'[g]? =
        if g ∈ order then (fs.find? g).map (peakOf heights component) else heights[g]? := by
  induction order generalizing heights with
  | nil => exact ⟨heights, rfl, by simp⟩
  | cons f rest ih =>
      obtain ⟨F, hF, hFready⟩ := hready f (List.mem_cons_self ..)
      have hread : ∀ g, g ∉ component →
          (heights.insert f (peakOf heights component F))[g]? = heights[g]? := by
        intro g hg
        have hne : f ≠ g := fun heq => hg (heq ▸ horder f (List.mem_cons_self ..))
        simp [Std.HashMap.getElem?_insert, hne]
      have hsame : peakOf (heights.insert f (peakOf heights component F)) component =
          peakOf heights component := by
        funext G
        exact peakOf_congr (fun site _ hnot => hread _ hnot)
      have hrest : ∀ g ∈ rest, ∃ G, fs.find? g = some G ∧
          G.Ready (heights.insert f (peakOf heights component F)) component := by
        intro g hg
        obtain ⟨G, hG, hGready⟩ := hready g (List.mem_cons_of_mem _ hg)
        exact ⟨G, hG, fun site hsite hnot =>
          Std.HashMap.mem_insert.2 (Or.inr (hGready site hsite hnot))⟩
      obtain ⟨heights', hpass, hvalues⟩ := ih
        (fun g hg => horder g (List.mem_cons_of_mem _ hg)) hrest
      refine ⟨heights', ?_, fun g => ?_⟩
      · rw [List.foldlM_cons, takePeak?_eq hF hFready]
        exact hpass
      · rw [hvalues, hsame]
        by_cases hg : g ∈ rest
        · simp [hg]
        · by_cases hgf : g = f
          · subst hgf
            simp [hg, hF]
          · simp [hg, hgf, Std.HashMap.getElem?_insert, Ne.symm hgf]

/-- Behind a pass the frames that were passed have their peaks, and no peak is lost. -/
theorem mem_of_pass (hopen : ∀ f ∈ order, fs.find? f ≠ none)
    (hvalues : ∀ g : FrameId, heights'[g]? =
      if g ∈ order then (fs.find? g).map (peakOf heights component) else heights[g]?)
    (hg : g ∈ order ∨ g ∈ heights) : g ∈ heights' := by
  rw [Std.HashMap.mem_iff_isSome_getElem?, hvalues]
  by_cases hmem : g ∈ order
  · obtain ⟨G, hG⟩ := Option.ne_none_iff_exists'.1 (hopen g hmem)
    rw [if_pos hmem, hG]
    rfl
  · rw [if_neg hmem, ← Std.HashMap.mem_iff_isSome_getElem?]
    exact hg.resolve_left hmem

/-- The search for a peak asks a component for its members only. -/
theorem peakOf_perm (hperm : order.Perm component) :
    peakOf heights order = peakOf heights component := by
  funext F
  rw [peakOf_eq_foldl, peakOf_eq_foldl]
  have hstep : peakStep heights order = peakStep heights component := by
    funext best site
    unfold peakStep
    rw [hperm.contains_eq]
  rw [hstep]

theorem getElem?_foldl_addPeaks_congr (components : List (List FrameId))
    (h : ∀ g : FrameId, heights[g]? = heights'[g]?) (g : FrameId) :
    (components.foldl (addPeaks fs) heights)[g]? =
      (components.foldl (addPeaks fs) heights')[g]? := by
  induction components generalizing heights heights' with
  | nil => exact h g
  | cons component rest ih =>
      apply ih
      intro g
      have hsame : peakOf heights component = peakOf heights' component := by
        funext F
        exact peakOf_congr (fun site _ _ => h _)
      rw [getElem?_addPeaks, getElem?_addPeaks, hsame, h]

/-- Peaks in the middle of a pass, with components left to do. -/
structure Taking (fs : Frames) (left : List (List FrameId)) (heights : PerFrame Peak) : Prop where
  classes : ∀ c ∈ left, ∀ f ∈ c, ∀ g, g ∈ c ↔ fs.Mutual f g
  opened : ∀ c ∈ left, ∀ f ∈ c, fs.find? f ≠ none
  calls : ∀ c ∈ left, ∀ f ∈ c, ∀ g, fs.Calls f g → g ∈ heights ∨ ∃ d ∈ left, g ∈ d
  order : left.Pairwise (fun c later => ∀ f ∈ c, ∀ g ∈ later, ¬ fs.Calls f g)
  greatest : ∀ f peak, heights[f]? = some peak → IsGreatest (fs.chainHeights f) peak.depth

namespace Taking

variable {rest : List (List FrameId)}

/-- A frame of the next component calls nothing that comes later, so its callees have their peaks.
-/
theorem ready (h : Taking fs (component :: rest) heights) (hf : f ∈ component)
    (hF : fs.find? f = some F) : F.Ready heights component := by
  intro site hsite hnot
  have hcall : fs.Calls f (.entry site.callee) := ⟨F, hF, site, hsite, rfl⟩
  rcases h.calls component (List.mem_cons_self ..) f hf _ hcall with hmem | ⟨d, hd, hmem⟩
  · exact hmem
  · rcases List.mem_cons.1 hd with rfl | hd
    · exact absurd hmem hnot
    · exact absurd hcall ((List.pairwise_cons.1 h.order).1 d hd f hf _ hmem)

/-- The peak of a frame of the next component is right. -/
theorem isGreatest (h : Taking fs (component :: rest) heights) (hf : f ∈ component)
    (hF : fs.find? f = some F) :
    IsGreatest (fs.chainHeights f) (peakOf heights component F).depth := by
  apply isGreatest_peakOf hF (h.classes component (List.mem_cons_self ..) f hf)
  intro site hsite hnot
  have hpeak := Std.HashMap.getElem?_eq_some_getElem (h.ready hf hF site hsite hnot)
  rw [height, hpeak]
  exact h.greatest _ _ hpeak

/-- The next component is taken in any order. -/
theorem take (h : Taking fs (component :: rest) heights) (hperm : order.Perm component) :
    ∃ heights', takePeaks? fs heights order = some heights' ∧
      (∀ g : FrameId, heights'[g]? = (addPeaks fs heights component)[g]?) ∧
      Taking fs rest heights' := by
  have hopen : ∀ f ∈ component, ∃ F, fs.find? f = some F := fun f hf =>
    Option.ne_none_iff_exists'.1 (h.opened component (List.mem_cons_self ..) f hf)
  have hready : ∀ f ∈ order, ∃ F, fs.find? f = some F ∧ F.Ready heights order := by
    intro f hf
    obtain ⟨F, hF⟩ := hopen f (hperm.mem_iff.1 hf)
    exact ⟨F, hF, fun site hsite hnot =>
      h.ready (hperm.mem_iff.1 hf) hF site hsite (fun hmem => hnot (hperm.mem_iff.2 hmem))⟩
  obtain ⟨heights', hpass, hvalues⟩ := foldlM_takePeak? (fun f hf => hf) hready
  have hadded : ∀ g : FrameId, heights'[g]? = (addPeaks fs heights component)[g]? := by
    intro g
    rw [hvalues, getElem?_addPeaks, peakOf_perm hperm]
    by_cases hg : g ∈ component
    · obtain ⟨G, hG⟩ := hopen g hg
      simp [hg, hperm.mem_iff, hG]
    · simp [hg, hperm.mem_iff]
  have hkept : ∀ g, g ∈ component ∨ g ∈ heights → g ∈ heights' := fun g hg =>
    mem_of_pass (fun f hf => h.opened component (List.mem_cons_self ..) f (hperm.mem_iff.1 hf))
      hvalues (hg.imp_left hperm.mem_iff.2)
  refine ⟨heights', hpass, hadded, ?_, ?_, ?_, (List.pairwise_cons.1 h.order).2, ?_⟩
  · exact fun c hc => h.classes c (List.mem_cons_of_mem _ hc)
  · exact fun c hc => h.opened c (List.mem_cons_of_mem _ hc)
  · intro c hc f hf g hcall
    rcases h.calls c (List.mem_cons_of_mem _ hc) f hf g hcall with hmem | ⟨d, hd, hmem⟩
    · exact Or.inl (hkept g (Or.inr hmem))
    · rcases List.mem_cons.1 hd with rfl | hd
      · exact Or.inl (hkept g (Or.inl hmem))
      · exact Or.inr ⟨d, hd, hmem⟩
  · intro f peak hpeak
    rw [hvalues] at hpeak
    split at hpeak
    · rename_i hf
      obtain ⟨F, hF, rfl⟩ := Option.map_eq_some_iff.1 hpeak
      rw [peakOf_perm hperm]
      exact h.isGreatest (hperm.mem_iff.1 hf) hF
    · exact h.greatest f peak hpeak

/-- The components that are left are taken one after the other, each in any order. -/
theorem run {orders components : List (List FrameId)} (h : Taking fs components heights)
    (horders : List.Forall₂ List.Perm orders components) :
    ∃ heights', orders.foldlM (takePeaks? fs) heights = some heights' ∧
      (∀ g : FrameId, heights'[g]? = (components.foldl (addPeaks fs) heights)[g]?) ∧
      Taking fs [] heights' := by
  induction horders generalizing heights with
  | nil => exact ⟨heights, rfl, fun _ => rfl, h⟩
  | cons hperm _ ih =>
      obtain ⟨next, hnext, hadded, htaking⟩ := h.take hperm
      obtain ⟨heights', hrest, hvalues, hdone⟩ := ih htaking
      refine ⟨heights', ?_, fun g => ?_, hdone⟩
      · rw [List.foldlM_cons, hnext]
        exact hrest
      · rw [hvalues, List.foldl_cons]
        exact getElem?_foldl_addPeaks_congr _ hadded g

end Taking

/-- A callee is open. -/
theorem Traversed.opened_of_calls (hs : Traversed job fs) (h : fs.Calls f g) :
    fs.find? g ≠ none := by
  obtain ⟨F, hF, site, hsite, rfl⟩ := h
  exact ((hs.justified.frames f F hF).calls site hsite).2.2

/-- Before the first component nothing is taken. -/
theorem Traversed.taking (hs : Traversed job fs) : Taking fs (callGraph fs).components {} := by
  have hnodup := hs.justified.nodup
  have hreaches : (callGraph fs).Reaches = Relation.ReflTransGen fs.Calls := by
    rw [← edge_callGraph hnodup]
    rfl
  obtain ⟨vertices, hcovers⟩ := covers_callGraph fs
  have hmember := fun g => Graph.mem_components_iff (v := g) hcovers
  have hseparated := Graph.separated_components hcovers
  rw [hreaches] at hmember
  refine ⟨fun c hc f hf g => ?_, fun c hc f hf => ?_, fun c hc f hf g hcall => ?_, ?_, ?_⟩
  · rw [hseparated.classes c (List.mem_reverse.2 hc) f hf g, hreaches]
    exact Iff.rfl
  · obtain ⟨r, hr, hpath⟩ := (hmember f).1 ⟨c, hc, hf⟩
    induction hpath with
    | refl => exact fun hnone => Frames.find?_eq_none_iff.1 hnone hr
    | tail _ hcall _ => exact hs.opened_of_calls hcall
  · obtain ⟨r, hr, hpath⟩ := (hmember f).1 ⟨c, hc, hf⟩
    exact Or.inr ((hmember g).2 ⟨r, hr, hpath.tail hcall⟩)
  · apply (Graph.pairwise_components hcovers).imp
    intro c later hapart f hf g hg hcall
    apply hapart f hf g hg
    rw [hreaches]
    exact Relation.ReflTransGen.single hcall
  · intro f peak hpeak
    simp at hpeak

/-- Behind a traversal, peaks are the highest ends of chains of calls.  Taken component by
component, whatever the order inside of the components, no frame is missing and no peak is read
before it is taken, and the peaks in the end are always the same.  The peak of a frame is the
greatest depth at which a chain of calls from it ends, if each call leads into another component; so
are the peaks in the summaries. -/
theorem peaks_longest {s : State} (h : traverse job = .ok () s) :
    (∀ orders, List.Forall₂ List.Perm orders (callGraph s.frames).components →
      ∃ heights : PerFrame Peak, orders.foldlM (takePeaks? s.frames) {} = some heights ∧
        ∀ f : FrameId, heights[f]? = (peaks s.frames)[f]?) ∧
    (∀ f F, s.frames.find? f = some F → ∃ peak, (peaks s.frames)[f]? = some peak ∧
      IsGreatest (s.frames.chainHeights f) peak.depth) ∧
    ∀ subroutines, summarise job.limit s.frames = .ok subroutines → ∀ σ ∈ subroutines,
      IsGreatest (s.frames.chainHeights (.entry σ.entry)) σ.peak := by
  have hs := traversed_of_traverse h
  have hnodup := hs.justified.nodup
  have hpeaks : ∀ f F, s.frames.find? f = some F → ∃ peak, (peaks s.frames)[f]? = some peak ∧
      IsGreatest (s.frames.chainHeights f) peak.depth := by
    intro f F hF
    obtain ⟨_, -, hpeak⟩ := getElem?_peaks hnodup hF
    obtain ⟨heights, -, hvalues, htaken⟩ := hs.taking.run (List.forall₂_same.2 fun _ _ => .refl _)
    exact ⟨_, hpeak, htaken.greatest f _ ((hvalues f).trans hpeak)⟩
  refine ⟨fun orders horders => ?_, hpeaks, fun subroutines hsummarise σ hσ => ?_⟩
  · obtain ⟨heights, hpass, hvalues, -⟩ := hs.taking.run horders
    exact ⟨heights, hpass, hvalues⟩
  · obtain ⟨need, -, -, rfl⟩ := summarise_eq_ok_iff.1 hsummarise
    obtain ⟨F, hF, heq⟩ := (mem_summaries_iff hnodup).1 hσ
    obtain ⟨peak, hpeak, hgreatest⟩ := hpeaks _ F hF
    have hheight : σ.peak = peak.depth := by
      rw [congrArg Summary.peak heq, height, hpeak]
      rfl
    rw [hheight]
    exact hgreatest

namespace Sample

/-- A subroutine that takes an item of its caller, calls another one at a depth below its own entry,
and calls itself unless there is input. -/
def tower : Job :=
  Job.make
    (Program.ofCode .immediate
      #[0x60, 0x00, 0x5d, 0x00, 0x00, 0x07, 0x00,
        0x5c, 0x50, 0x5d, 0x00, 0x00, 0x19, 0x36, 0x60, 0x17, 0x57, 0x60, 0x00,
        0x5d, 0x00, 0x00, 0x07, 0x5b, 0x5e,
        0x5c, 0x36, 0x36, 0x36, 0x50, 0x50, 0x50, 0x5e])
    JumpTable.empty (.whole 3) (.whole 2)

/-- The end of its traversal. -/
def towerEnd : State where
  frames := ⟨[
    { id := .main
      depths := ((({} : Std.HashMap Nat Int).insert 0 0).insert 2 1).insert 6 0
      high := 1
      calls := [⟨.main, 7, 2, 6, 1⟩] },
    { id := .entry 7
      depths := (((((((((({} : Std.HashMap Nat Int).insert 7 0).insert 8 0).insert 9 (-1)).insert
        13 (-1)).insert 14 0).insert 16 1).insert 17 (-1)).insert 19 0).insert 23 (-1)).insert
        24 (-1)
      low := -1
      high := 1
      net := some (-1)
      callers := [⟨.main, 7, 2, 6, 1⟩, ⟨.entry 7, 7, 19, 23, 0⟩]
      calls := [⟨.entry 7, 25, 9, 13, -1⟩, ⟨.entry 7, 7, 19, 23, 0⟩] },
    { id := .entry 25
      depths := (((((((({} : Std.HashMap Nat Int).insert 25 0).insert 26 0).insert 27 1).insert
        28 2).insert 29 3).insert 30 2).insert 31 1).insert 32 0
      high := 3
      net := some 0
      callers := [⟨.entry 7, 25, 9, 13, -1⟩] }]⟩
  worklist := []
  steps := 22

set_option maxRecDepth 10000 in
theorem traverse_tower : traverse tower = .ok () towerEnd := by
  cbv

end Sample

theorem peaks_longest_tower :
    IsGreatest (Sample.towerEnd.frames.chainHeights .main) 3 ∧
      IsGreatest (Sample.towerEnd.frames.chainHeights (.entry 7)) 2 ∧
      ∃ heights : PerFrame Peak,
        [[.entry 25], [.entry 7], [.main]].foldlM (takePeaks? Sample.towerEnd.frames) {} =
          some heights := by
  have hmain : (peaks Sample.towerEnd.frames)[FrameId.main]? = some ⟨3, some 2⟩ := by
    cbv
  have hsummarise : summarise (.whole 3) Sample.towerEnd.frames =
      .ok [⟨7, 1, some (-1), 2⟩, ⟨25, 0, some 0, 3⟩] := by
    cbv
  have hcomponents : (callGraph Sample.towerEnd.frames).components =
      [[.entry 25], [.entry 7], [.main]] := by
    cbv
  obtain ⟨horders, hpeaks, hsummaries⟩ := peaks_longest Sample.traverse_tower
  obtain ⟨peak, hpeak, hgreatest⟩ := hpeaks .main _ rfl
  obtain rfl : ⟨3, some 2⟩ = peak := by simpa [hmain] using hpeak
  refine ⟨hgreatest, hsummaries _ hsummarise ⟨7, 1, some (-1), 2⟩ (by simp), ?_⟩
  obtain ⟨heights, hpass, -⟩ := horders [[.entry 25], [.entry 7], [.main]] (by
    rw [hcomponents]
    exact List.forall₂_same.2 fun _ _ => .refl _)
  exact ⟨heights, hpass⟩

end FlowCheck.Validator
