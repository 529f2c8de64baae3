import FlowCheck.Proofs.Components
import FlowCheck.Proofs.Decision
import Mathlib

/-!
# What the summaries guarantee

Behind a traversal, the needs of the frames are pushed to their callers until nothing changes: in
the end every frame needs what it takes itself and what its callees need beyond what it has put on
the stack before (`NeedsMet`).  The peaks are taken component by component, callees first: a frame
rises as high as its own instructions and as the callees that do not call it back (`PeaksMet`).
-/

namespace FlowCheck.Validator

variable {job : Job} {fs : Frames} {f : FrameId} {F : Frame} {site : CallSite}

/-- A map filled from the frames is read like the frames. -/
theorem Frames.getElem?_foldl_insert {β : Type} (hnodup : fs.ids.Nodup) (value : Frame → β)
    (f : FrameId) :
    (fs.toList.foldl (fun m F => m.insert F.id (value F)) {} : PerFrame β)[f]? =
      (fs.find? f).map value := by
  rw [Graph.getElem?_foldl_insert Frame.id value]
  cases hfind : fs.toList.reverse.find? (fun G => G.id == f) with
  | none =>
      have hnone : fs.find? f = none := by
        refine List.find?_eq_none.2 (fun G hG => ?_)
        exact List.find?_eq_none.1 hfind G (List.mem_reverse.2 hG)
      simp [hnone]
  | some G =>
      have hid : G.id = f := by simpa using List.find?_some hfind
      have hG := Frames.find?_of_mem hnodup
        (List.mem_reverse.1 (List.mem_of_find?_eq_some hfind))
      rw [hid] at hG
      simp [hG]

/-! ## Needs -/

/-- The needs of the frames, met at every call. -/
structure NeedsMet (fs : Frames) (need : PerFrame Int) : Prop where
  low : ∀ f F, fs.find? f = some F → -F.low ≤ need.getD f 0
  main : need.getD .main 0 = 0
  calls : ∀ f F, fs.find? f = some F → ∀ site ∈ F.callers,
    need.getD f 0 - site.depth ≤ need.getD site.caller 0

/-- The needs while they are pushed, with the calls of one frame still to be looked at. -/
structure Needs.Pushing (fs : Frames) (id : FrameId) (left : List CallSite) (n : Needs) : Prop where
  low : ∀ f F, fs.find? f = some F → -F.low ≤ n.need.getD f 0
  main : n.need.getD .main 0 = 0
  calls : ∀ f F, fs.find? f = some F → f ∉ n.pending → ∀ site ∈ F.callers,
    (f = id → site ∉ left) → n.need.getD f 0 - site.depth ≤ n.need.getD site.caller 0

/-- What is left to do: the pending frames, and the room that needs have to grow. -/
def Needs.room (limit : Amount) (fs : Frames) (n : Needs) : Nat :=
  fs.total (fun F => (limit.floor - n.need.getD F.id 0).toNat) + n.pending.length

/-- A call that leaves enough to its callee is done with. -/
theorem Needs.Pushing.skip {id : FrameId} {left : List CallSite} {n : Needs}
    (h : n.Pushing fs id (site :: left))
    (henough : n.need.getD id 0 - site.depth ≤ n.need.getD site.caller 0) :
    n.Pushing fs id left := by
  refine { h with calls := fun g G hG hpending other hother hleft => ?_ }
  by_cases heq : g = id ∧ other = site
  · obtain ⟨rfl, rfl⟩ := heq
    exact henough
  · refine h.calls g G hG hpending other hother (fun hg hmem => ?_)
    rcases List.mem_cons.1 hmem with rfl | hmem
    · exact heq ⟨hg, rfl⟩
    · exact hleft hg hmem

/-- The needs with that of one frame raised, and the frame pending. -/
def Needs.raise (n : Needs) (g : FrameId) (required : Int) : Needs where
  need := n.need.insert g required
  pending := if n.pending.contains g then n.pending else g :: n.pending

theorem Needs.getD_raise (n : Needs) (g : FrameId) (required : Int) (f : FrameId) :
    (n.raise g required).need.getD f 0 = if f = g then required else n.need.getD f 0 := by
  rw [Needs.raise, Std.HashMap.getD_insert]
  by_cases hf : f = g
  · simp [hf]
  · simp [hf, Ne.symm hf]

theorem Needs.le_getD_raise {n : Needs} {g : FrameId} {required : Int}
    (hmore : n.need.getD g 0 ≤ required) (f : FrameId) :
    n.need.getD f 0 ≤ (n.raise g required).need.getD f 0 := by
  rw [Needs.getD_raise]
  split
  · rename_i hf
    rw [hf]
    exact hmore
  · exact Int.le_refl _

theorem Needs.not_mem_pending_raise {n : Needs} {g : FrameId} {required : Int}
    (h : f ∉ (n.raise g required).pending) : f ≠ g ∧ f ∉ n.pending := by
  simp only [Needs.raise] at h
  split at h
  · rename_i hcontains
    refine ⟨?_, h⟩
    rintro rfl
    exact h (List.contains_iff_mem.1 hcontains)
  · rw [List.mem_cons, not_or] at h
    exact h

/-- A caller that needs more is raised to what the call leaves to be desired. -/
theorem Needs.Pushing.raise {id : FrameId} {left : List CallSite} {n : Needs}
    (h : n.Pushing fs id (site :: left)) (hmain : site.caller ≠ .main)
    (hmore : n.need.getD site.caller 0 ≤ n.need.getD id 0 - site.depth) :
    (n.raise site.caller (n.need.getD id 0 - site.depth)).Pushing fs id left := by
  have hgrows := Needs.le_getD_raise hmore
  refine ⟨fun g G hG => Int.le_trans (h.low g G hG) (hgrows g), ?_, ?_⟩
  · rw [Needs.getD_raise, if_neg (Ne.symm hmain)]
    exact h.main
  · -- the caller is pending now, and the needs of all other frames are what they were
    intro g G hG hpending other hother hleft
    obtain ⟨hcaller, hpending⟩ := Needs.not_mem_pending_raise hpending
    rw [Needs.getD_raise n _ _ g, if_neg hcaller]
    by_cases heq : g = id ∧ other = site
    · obtain ⟨rfl, rfl⟩ := heq
      rw [Needs.getD_raise, if_pos rfl]
    · refine Int.le_trans (h.calls g G hG hpending other hother (fun hg hmem => ?_)) (hgrows _)
      rcases List.mem_cons.1 hmem with rfl | hmem
      · exact heq ⟨hg, rfl⟩
      · exact hleft hg hmem

/-- A raised need takes up room, which makes up for the frame that becomes pending. -/
theorem Needs.room_raise {limit : Amount} {n : Needs} {g : FrameId} {required : Int}
    (hg : fs.find? g ≠ none) (hmore : n.need.getD g 0 < required)
    (hlimit : required ≤ limit.floor) :
    (n.raise g required).room limit fs ≤ n.room limit fs := by
  obtain ⟨G, hG⟩ := Option.ne_none_iff_exists'.1 hg
  have hgrows := Needs.le_getD_raise (Int.le_of_lt hmore)
  have hfalls : fs.total (fun F =>
      (limit.floor - (n.raise g required).need.getD F.id 0).toNat) <
      fs.total (fun F => (limit.floor - n.need.getD F.id 0).toNat) := by
    refine Frames.total_lt (fun F _ => ?_) (Frames.mem_of_find? hG) ?_
    · have := hgrows F.id
      omega
    · rw [Frames.find?_id hG, Needs.getD_raise, if_pos rfl]
      omega
  have hpending : (n.raise g required).pending.length ≤ n.pending.length + 1 := by
    simp only [Needs.raise]
    split
    · exact Nat.le_succ _
    · exact Nat.le_refl _
  unfold Needs.room
  omega

/-- Settling a call keeps what holds of the needs and takes up no room. -/
theorem Needs.Pushing.settle {limit : Amount} {id : FrameId} {left : List CallSite} {n n' : Needs}
    (h : n.Pushing fs id (site :: left)) (hcaller : fs.find? site.caller ≠ none)
    (hok : n.settle limit id site = .ok n') :
    n'.Pushing fs id left ∧ n'.room limit fs ≤ n.room limit fs := by
  unfold Needs.settle at hok
  simp only at hok
  split at hok
  · rename_i henough
    cases hok
    exact ⟨h.skip henough, Nat.le_refl _⟩
  · rename_i hmore
    split at hok
    · simp [refuseCall] at hok
    · rename_i hfits
      rw [not_or] at hfits
      obtain ⟨hmain, hlimit⟩ := hfits
      cases hok
      exact ⟨h.raise hmain (Int.le_of_lt (Int.not_le.1 hmore)),
        Needs.room_raise hcaller (Int.not_le.1 hmore) (Int.not_lt.1 hlimit)⟩

/-- All calls of a frame are looked at in turn. -/
theorem Needs.Pushing.settle_callers {limit : Amount} {id : FrameId} {left : List CallSite}
    {n n' : Needs} (h : n.Pushing fs id left)
    (hcallers : ∀ site ∈ left, fs.find? site.caller ≠ none)
    (hok : left.foldlM (Needs.settle limit id) n = .ok n') :
    n'.Pushing fs id [] ∧ n'.room limit fs ≤ n.room limit fs := by
  induction left generalizing n with
  | nil =>
      obtain rfl : n = n' := by simpa [pure, Except.pure] using hok
      exact ⟨h, Nat.le_refl _⟩
  | cons site rest ih =>
      rw [List.foldlM_cons] at hok
      cases hstep : n.settle limit id site with
      | error r => simp [hstep, bind, Except.bind] at hok
      | ok m =>
          obtain ⟨hm, hroom⟩ := h.settle (hcallers site (List.mem_cons_self ..)) hstep
          obtain ⟨hn', hroom'⟩ := ih hm
            (fun site hsite => hcallers site (List.mem_cons_of_mem _ hsite))
            (by simpa [hstep, bind, Except.bind] using hok)
          exact ⟨hn', Nat.le_trans hroom' hroom⟩

/-- The calls of a frame. -/
def Frames.callersOf (fs : Frames) (id : FrameId) : List CallSite :=
  ((fs.find? id).map Frame.callers).getD []

/-- A pending frame that is taken is no longer pending, but all its calls are left to be looked
at. -/
theorem Needs.Pushing.take {id taken : FrameId} {before after : List FrameId} {n : Needs}
    (h : n.Pushing fs id []) (hpending : n.pending = before ++ taken :: after) :
    ({ n with pending := before ++ after } : Needs).Pushing fs taken (fs.callersOf taken) := by
  refine { h with calls := fun g G hG hrest site hsite hleft => ?_ }
  by_cases hg : g = taken
  · subst hg
    exact absurd hsite (by simpa [Frames.callersOf, hG] using hleft rfl)
  · have hg' : g ∉ n.pending := by
      rw [hpending]
      simpa [hg] using hrest
    exact h.calls g G hG hg' site hsite (fun _ => by simp)

/-- In a round, a pending frame is taken and all its calls are looked at.  There is less left to do
then: one frame less is pending than before, and no room was gained. -/
theorem Needs.Pushing.round {limit : Amount} {id taken : FrameId} {before after : List FrameId}
    {n n' : Needs}
    (hcallers : ∀ f F, fs.find? f = some F → ∀ site ∈ F.callers, fs.find? site.caller ≠ none)
    (h : n.Pushing fs id []) (hpending : n.pending = before ++ taken :: after)
    (hok : (fs.callersOf taken).foldlM (Needs.settle limit taken)
      { n with pending := before ++ after } = .ok n') :
    n'.Pushing fs taken [] ∧ n'.room limit fs < n.room limit fs := by
  have hopen : ∀ site ∈ fs.callersOf taken, fs.find? site.caller ≠ none := by
    intro site hsite
    cases hfind : fs.find? taken with
    | none => simp [Frames.callersOf, hfind] at hsite
    | some G => exact hcallers taken G hfind site (by simpa [Frames.callersOf, hfind] using hsite)
  obtain ⟨hn', hroom⟩ := (h.take hpending).settle_callers hopen hok
  refine ⟨hn', Nat.lt_of_le_of_lt hroom ?_⟩
  simp only [Needs.room, hpending, List.length_append, List.length_cons]
  omega

/-- Needs that are pushed with no frame pending are met at every call. -/
theorem Needs.Pushing.met {id : FrameId} {n : Needs} (h : n.Pushing fs id [])
    (hpending : n.pending = []) : NeedsMet fs n.need := by
  refine ⟨h.low, h.main, fun f F hF site hsite => ?_⟩
  exact h.calls f F hF (by simp [hpending]) site hsite (fun _ => by simp)

/-- Needs are pushed until no frame is pending. -/
theorem Needs.Pushing.settleAll {limit : Amount} {id : FrameId} {fuel : Nat} {n n' : Needs}
    (hcallers : ∀ f F, fs.find? f = some F → ∀ site ∈ F.callers, fs.find? site.caller ≠ none)
    (h : n.Pushing fs id []) (hfuel : n.room limit fs < fuel)
    (hok : n.settleAll limit fs fuel = .ok n') : NeedsMet fs n'.need := by
  induction fuel generalizing id n with
  | zero => omega
  | succ fuel ih =>
      rw [Needs.settleAll] at hok
      cases hpending : n.pending with
      | nil =>
          obtain rfl : n = n' := by simpa [hpending] using hok
          exact h.met hpending
      | cons next rest =>
          simp only [hpending] at hok
          split at hok
          · cases hok
          · rename_i m hm
            have hfirst : n.pending = [] ++ next :: rest := hpending
            obtain ⟨hm', hroom⟩ := h.round hcallers hfirst hm
            exact ih hm' (by omega) hok

/-- Where pushing starts: every frame needs what it takes itself, and every frame is pending. -/
def Needs.start (fs : Frames) : Needs where
  need := fs.toList.foldl (fun m f => m.insert f.id (-f.low)) {}
  pending := fs.ids.reverse

theorem Needs.getD_start (hs : Traversed job fs) (hF : fs.find? f = some F) :
    (Needs.start fs).need.getD f 0 = -F.low := by
  rw [Std.HashMap.getD_eq_getD_getElem?, Needs.start,
    Frames.getElem?_foldl_insert hs.justified.nodup (fun F => -F.low), hF]
  rfl

/-- Every frame is pending at first, so nothing is said of any call yet. -/
theorem Needs.pushing_start (hs : Traversed job fs) : (Needs.start fs).Pushing fs .main [] := by
  refine ⟨fun f F hF => Int.le_of_eq (Needs.getD_start hs hF).symm, ?_, ?_⟩
  · obtain ⟨M, hM⟩ := Option.ne_none_iff_exists'.1 hs.justified.main
    rw [Needs.getD_start hs hM, (hs.justified.frames _ M hM).low_main rfl]
    rfl
  · intro f F hF hpending
    refine absurd (List.mem_reverse.2 ?_) hpending
    exact List.mem_map.2 ⟨F, Frames.mem_of_find? hF, Frames.find?_id hF⟩

theorem Needs.room_start (hs : Traversed job fs) (limit : Amount) :
    (Needs.start fs).room limit fs ≤ fs.size * (limit.floor.toNat + 1) := by
  have hframe : ∀ F ∈ fs.toList,
      (limit.floor - (Needs.start fs).need.getD F.id 0).toNat ≤ limit.floor.toNat := by
    intro F hF
    have hfind := Frames.find?_of_mem hs.justified.nodup hF
    have hnonpos := (hs.justified.frames _ F hfind).low_nonpos
    rw [Needs.getD_start hs hfind]
    omega
  have htotal := Frames.total_le hframe
  have hlength : (Needs.start fs).pending.length = fs.size := by
    simp [Needs.start, Frames.size_eq_length_ids]
  rw [Needs.room, hlength, Nat.mul_add, Nat.mul_one]
  omega

theorem Traversed.callers_open (hs : Traversed job fs) :
    ∀ f F, fs.find? f = some F → ∀ site ∈ F.callers, fs.find? site.caller ≠ none :=
  fun f F hF site hsite => ((hs.justified.frames f F hF).callers site hsite).2.2

theorem needs_eq_ok_iff {limit : Amount} {need : PerFrame Int} :
    needs limit fs = .ok need ↔ ∃ n, (Needs.start fs).settleAll limit fs
      (fs.size * (limit.floor.toNat + 1) + 1) = .ok n ∧ n.need = need := by
  rw [show needs limit fs = ((Needs.start fs).settleAll limit fs
    (fs.size * (limit.floor.toNat + 1) + 1)).map Needs.need from rfl]
  cases (Needs.start fs).settleAll limit fs (fs.size * (limit.floor.toNat + 1) + 1) <;>
    simp [Except.map]

/-- The needs behind a traversal are met at every call. -/
theorem needsMet_needs {limit : Amount} {need : PerFrame Int} (hs : Traversed job fs)
    (h : needs limit fs = .ok need) : NeedsMet fs need := by
  have hroom := Needs.room_start hs limit
  obtain ⟨n, hn, rfl⟩ := needs_eq_ok_iff.1 h
  exact (Needs.pushing_start hs).settleAll hs.callers_open (by omega) hn

/-! ## The call graph -/

/-- One frame calls another. -/
def Frames.Calls (fs : Frames) (f g : FrameId) : Prop :=
  ∃ F, fs.find? f = some F ∧ ∃ site ∈ F.calls, g = .entry site.callee

theorem edge_callGraph (hnodup : fs.ids.Nodup) : (callGraph fs).Edge = fs.Calls := by
  funext f g
  have hnext : (callGraph fs).next f = ((fs.find? f).map
      (fun F => F.calls.map (fun site => FrameId.entry site.callee))).getD [] := by
    rw [← Frames.getElem?_foldl_insert hnodup, Graph.next, Std.HashMap.getD_eq_getD_getElem?]
    simp only [callGraph, Graph.ofLists, List.foldl_map]
  rw [Graph.Edge, hnext]
  cases hfind : fs.find? f with
  | none => simp [Frames.Calls, hfind]
  | some F =>
      simp only [Frames.Calls, hfind, Option.map_some, Option.getD_some, List.mem_map,
        Option.some.injEq, exists_eq_left', eq_comm]

theorem covers_callGraph (fs : Frames) : ∃ vertices, (callGraph fs).Covers vertices :=
  Graph.covers_ofLists _ _

/-- Every open frame is in a component. -/
theorem mem_components_callGraph (hf : fs.find? f ≠ none) :
    ∃ c ∈ (callGraph fs).components, f ∈ c := by
  obtain ⟨vertices, hcovers⟩ := covers_callGraph fs
  refine (Graph.mem_components_iff hcovers).2 ⟨f, ?_, Relation.ReflTransGen.refl⟩
  by_cases hmem : f ∈ fs.ids
  · exact hmem
  · exact absurd (Frames.find?_eq_none_iff.2 hmem) hf

/-! ## Peaks -/

/-- The peak of a frame as a summary gives it. -/
def height (heights : PerFrame Peak) (f : FrameId) : Int :=
  ((heights[f]?).map Peak.depth).getD 0

/-- A frame rises at least as high as its own instructions and as the callees that do not call it
back. -/
structure PeaksMet (fs : Frames) (heights : PerFrame Peak) : Prop where
  high : ∀ f F, fs.find? f = some F → F.high ≤ height heights f
  calls : ∀ f F, fs.find? f = some F → ∀ site ∈ F.calls,
    ¬ Relation.ReflTransGen fs.Calls (.entry site.callee) f →
      site.depth + height heights (.entry site.callee) ≤ height heights f

/-- One call in the search for the peak of a frame. -/
def peakStep (heights : PerFrame Peak) (component : List FrameId) (best : Peak) (site : CallSite) :
    Peak :=
  if component.contains (.entry site.callee) then best
  else if best.depth < site.depth + height heights (.entry site.callee) then
    ⟨site.depth + height heights (.entry site.callee), some site.pc⟩
  else best

theorem peakOf_eq_foldl (heights : PerFrame Peak) (component : List FrameId) (F : Frame) :
    peakOf heights component F = F.calls.foldl (peakStep heights component) ⟨F.high, none⟩ :=
  rfl

theorem le_peakStep (heights : PerFrame Peak) (component : List FrameId) (best : Peak)
    (site : CallSite) : best.depth ≤ (peakStep heights component best site).depth := by
  unfold peakStep
  split
  · exact Int.le_refl _
  · split
    · rename_i hlt
      exact Int.le_of_lt hlt
    · exact Int.le_refl _

theorem reach_le_peakStep {heights : PerFrame Peak} {component : List FrameId} (best : Peak)
    (hnot : .entry site.callee ∉ component) :
    site.depth + height heights (.entry site.callee) ≤
      (peakStep heights component best site).depth := by
  unfold peakStep
  rw [if_neg (fun hmem => hnot (List.contains_iff_mem.1 hmem))]
  split
  · exact Int.le_refl _
  · rename_i hge
    exact Int.not_lt.1 hge

theorem le_foldl_peakStep {heights : PerFrame Peak} {component : List FrameId}
    (sites : List CallSite) (best : Peak) :
    best.depth ≤ (sites.foldl (peakStep heights component) best).depth ∧
      ∀ site ∈ sites, .entry site.callee ∉ component →
        site.depth + height heights (.entry site.callee) ≤
          (sites.foldl (peakStep heights component) best).depth := by
  induction sites generalizing best with
  | nil => exact ⟨Int.le_refl _, by simp⟩
  | cons site rest ih =>
      obtain ⟨hbest, hrest⟩ := ih (peakStep heights component best site)
      rw [List.foldl_cons]
      refine ⟨Int.le_trans (le_peakStep ..) hbest, fun other hother hnot => ?_⟩
      rcases List.mem_cons.1 hother with rfl | hother
      · exact Int.le_trans (reach_le_peakStep best hnot) hbest
      · exact hrest other hother hnot

/-- The peaks of a component are those of its open frames; the others stay. -/
theorem getElem?_addPeaks (heights : PerFrame Peak) (component : List FrameId) (f : FrameId) :
    (addPeaks fs heights component)[f]? =
      if f ∈ component then ((fs.find? f).map (peakOf heights component)).or heights[f]?
      else heights[f]? := by
  have hstep : addPeaks fs heights component = component.foldl (fun m id =>
      (fs.find? id).elim m (fun F => m.insert id (peakOf heights component F))) heights := by
    unfold addPeaks
    congr
    funext m id
    cases fs.find? id <;> rfl
  have hfold : ∀ (l : List FrameId) (m : PerFrame Peak),
      (l.foldl (fun m id =>
        (fs.find? id).elim m (fun F => m.insert id (peakOf heights component F))) m)[f]? =
      if f ∈ l then ((fs.find? f).map (peakOf heights component)).or m[f]? else m[f]? := by
    intro l
    induction l with
    | nil => simp
    | cons id rest ih =>
        intro m
        rw [List.foldl_cons, ih]
        cases hfind : fs.find? id with
        | none =>
            by_cases hf : f = id
            · subst hf
              simp [hfind]
            · simp [hf]
        | some F =>
            by_cases hf : f = id
            · subst hf
              simp [hfind]
            · simp [hf, Std.HashMap.getElem?_insert, Ne.symm hf]
  rw [hstep, hfold]

/-- Only the callees outside the component matter. -/
theorem peakOf_congr {heights heights' : PerFrame Peak} {component : List FrameId} {F : Frame}
    (h : ∀ site ∈ F.calls, FrameId.entry site.callee ∉ component →
      heights'[FrameId.entry site.callee]? = heights[FrameId.entry site.callee]?) :
    peakOf heights' component F = peakOf heights component F := by
  rw [peakOf_eq_foldl, peakOf_eq_foldl]
  refine List.foldl_ext _ _ _ (fun best site hsite => ?_)
  unfold peakStep
  split
  · rfl
  · rename_i hnot
    have hsame : height heights' (.entry site.callee) = height heights (.entry site.callee) := by
      rw [height, height, h site hsite (fun hmem => hnot (List.contains_iff_mem.2 hmem))]
    rw [hsame]

/-- The peaks of all components: each frame has the peak that its component gives it.  A component
is not reached from the earlier ones, so it does not change what these have read. -/
theorem getElem?_foldl_addPeaks {done rest : List (List FrameId)} {heights : PerFrame Peak}
    (hnodup : fs.ids.Nodup)
    (horder : (done ++ rest).Pairwise (fun c c' => ∀ x ∈ c, ∀ y ∈ c', ¬ (callGraph fs).Reaches x y))
    (h : ∀ c ∈ done, ∀ f ∈ c, ∀ F, fs.find? f = some F →
      heights[f]? = some (peakOf heights c F)) :
    ∀ c ∈ done ++ rest, ∀ f ∈ c, ∀ F, fs.find? f = some F →
      (rest.foldl (addPeaks fs) heights)[f]? =
        some (peakOf (rest.foldl (addPeaks fs) heights) c F) := by
  induction rest generalizing done heights with
  | nil => simpa using h
  | cons component rest ih =>
      have hassoc : done ++ component :: rest = (done ++ [component]) ++ rest := by simp
      rw [List.foldl_cons, hassoc]
      rw [hassoc] at horder
      refine ih horder (fun c hc f hf F hF => ?_)
      have hsame : ∀ g, g ∉ component → (addPeaks fs heights component)[g]? = heights[g]? := by
        intro g hg
        rw [getElem?_addPeaks, if_neg hg]
      rcases List.mem_append.1 hc with hc | hc
      · -- an earlier component: none of its frames or of their callees is in the new one
        have hapart := (List.pairwise_append.1 (List.pairwise_append.1 horder).1).2.2 c hc component
          (List.mem_singleton.2 rfl) f hf
        have hf' : f ∉ component := fun hmem => hapart f hmem Relation.ReflTransGen.refl
        rw [hsame f hf', h c hc f hf F hF,
          peakOf_congr (fun site hsite _ => hsame _ (fun hmem => ?_))]
        refine hapart _ hmem (Relation.ReflTransGen.single ?_)
        rw [edge_callGraph hnodup]
        exact ⟨F, hF, site, hsite, rfl⟩
      · rw [List.mem_singleton.1 hc] at hf ⊢
        rw [getElem?_addPeaks, if_pos hf, hF, peakOf_congr (fun site _ hnot => hsame _ hnot)]
        rfl

/-- The peak of a frame is that of its class of mutual recursion. -/
theorem getElem?_peaks (hnodup : fs.ids.Nodup) (hF : fs.find? f = some F) :
    ∃ component, (∀ g ∈ component, Relation.ReflTransGen fs.Calls g f) ∧
      (peaks fs)[f]? = some (peakOf (peaks fs) component F) := by
  obtain ⟨vertices, hcovers⟩ := covers_callGraph fs
  have hopen : fs.find? f ≠ none := by simp [hF]
  obtain ⟨c, hc, hfc⟩ := mem_components_callGraph hopen
  refine ⟨c, fun g hg => ?_, ?_⟩
  · have hclass := (Graph.separated_components hcovers).classes c (List.mem_reverse.2 hc) f hfc g
    rw [← edge_callGraph hnodup]
    exact (hclass.1 hg).2
  · have hnothing : ∀ d ∈ ([] : List (List FrameId)), ∀ g ∈ d, ∀ G, fs.find? g = some G →
        ({} : PerFrame Peak)[g]? = some (peakOf {} d G) := by simp
    exact getElem?_foldl_addPeaks hnodup (Graph.pairwise_components hcovers) hnothing c hc f hfc F hF

theorem peaksMet_peaks (hnodup : fs.ids.Nodup) : PeaksMet fs (peaks fs) := by
  have hpeak : ∀ f F, fs.find? f = some F → ∃ component,
      (∀ g ∈ component, Relation.ReflTransGen fs.Calls g f) ∧
        height (peaks fs) f = (peakOf (peaks fs) component F).depth := by
    intro f F hF
    obtain ⟨component, hclass, hpeak⟩ := getElem?_peaks hnodup hF
    exact ⟨component, hclass, by simp [height, hpeak]⟩
  refine ⟨fun f F hF => ?_, fun f F hF site hsite hnot => ?_⟩
  · obtain ⟨component, -, hheight⟩ := hpeak f F hF
    rw [hheight, peakOf_eq_foldl]
    exact (le_foldl_peakStep F.calls _).1
  · obtain ⟨component, hclass, hheight⟩ := hpeak f F hF
    rw [hheight, peakOf_eq_foldl]
    exact (le_foldl_peakStep F.calls _).2 site hsite (fun hmem => hnot (hclass _ hmem))

end FlowCheck.Validator
