import FlowCheck.Proofs.Contract
import Mathlib

/-!
# Needs are the least ones

What the frames need of their callers is the least solution of a system of inequalities: a frame
needs what it takes itself, and at every call the caller needs what the callee needs beyond what lies
on the stack there (`Frames.Enough`).  A recursion that takes items from its caller has no finite
solution, so the least one is taken in the extended natural numbers (`Frames.leastNeeds`).

Needs are pushed to callers in rounds, and a round may take any of the pending frames
(`Needs.Round`).  No need ever exceeds the least solution, every round takes up room below the limit,
and if no frame is left pending, the needs are a solution.  So all orders come to the same end.
-/

namespace FlowCheck.Validator

variable {job : Job} {fs : Frames} {f : FrameId} {F : Frame} {site : CallSite} {limit : Amount}
  {N : FrameId → ℕ∞} {n m : Needs}

/-! ## The least solution -/

/-- Needs that are enough: for what each frame takes itself, and at every call for what the callee
needs, `N callee ≤ N caller + depth`. -/
structure Frames.Enough (fs : Frames) (N : FrameId → ℕ∞) : Prop where
  own : ∀ f F, fs.find? f = some F → ((-F.low).toNat : ℕ∞) ≤ N f
  calls : ∀ site, fs.HasCall site →
    N (.entry site.callee) + (-site.depth).toNat ≤ N site.caller + site.depth.toNat

/-- The least needs that are enough. -/
noncomputable def Frames.leastNeeds (fs : Frames) : FrameId → ℕ∞ :=
  fun f => sInf {k | ∃ N, fs.Enough N ∧ N f = k}

theorem Frames.Enough.leastNeeds_le (h : fs.Enough N) (f : FrameId) : fs.leastNeeds f ≤ N f :=
  sInf_le ⟨N, h, rfl⟩

theorem Frames.enough_top (fs : Frames) : fs.Enough (fun _ => ⊤) where
  own _ _ _ := le_top
  calls site _ := by simp

/-- Every frame gets its least need from a solution. -/
theorem Frames.exists_leastNeeds_eq (fs : Frames) (f : FrameId) :
    ∃ N, fs.Enough N ∧ N f = fs.leastNeeds f := by
  have hsome : {k | ∃ N, fs.Enough N ∧ N f = k}.Nonempty := ⟨⊤, _, fs.enough_top, rfl⟩
  exact csInf_mem hsome

theorem Frames.isLeast_leastNeeds (fs : Frames) : IsLeast {N | fs.Enough N} fs.leastNeeds := by
  refine ⟨⟨fun f F hF => ?_, fun site hsite => ?_⟩, fun N hN f => hN.leastNeeds_le f⟩
  · obtain ⟨N, hN, heq⟩ := fs.exists_leastNeeds_eq f
    rw [← heq]
    exact hN.own f F hF
  · -- the solution that gives the caller its least need gives the callee no less than its own
    obtain ⟨N, hN, heq⟩ := fs.exists_leastNeeds_eq site.caller
    rw [← heq]
    exact le_trans (add_le_add_left (hN.leastNeeds_le _) _) (hN.calls site hsite)

/-- Some call cannot be met: the main program has no caller to take items from, and no frame may
need more than the limit. -/
def Frames.Overdrawn (limit : Amount) (fs : Frames) : Prop :=
  0 < fs.leastNeeds .main ∨
    ∃ f, fs.find? f ≠ none ∧ (limit.floor.toNat : ℕ∞) < fs.leastNeeds f

/-- A call passes on to its caller what the callee needs beyond the depth. -/
theorem Frames.Enough.required_le {own : Int} (h : fs.Enough N) (hsite : fs.HasCall site)
    (hown : (own.toNat : ℕ∞) ≤ N (.entry site.callee)) :
    ((own - site.depth).toNat : ℕ∞) ≤ N site.caller := by
  have hcall := h.calls site hsite
  cases hcaller : N site.caller with
  | top => exact le_top
  | coe c =>
      rw [hcaller] at hcall
      have hsum : ((own.toNat + (-site.depth).toNat : ℕ) : ℕ∞) ≤
          ((c + site.depth.toNat : ℕ) : ℕ∞) := by
        push_cast
        exact le_trans (add_le_add_left hown _) hcall
      have hle : own.toNat + (-site.depth).toNat ≤ c + site.depth.toNat := by exact_mod_cast hsum
      have : (own - site.depth).toNat ≤ c := by omega
      exact_mod_cast this

/-! ## Rounds -/

/-- A round takes any of the pending frames and looks at all its calls. -/
def Needs.Round (limit : Amount) (fs : Frames) (n : Needs) (out : Except Rejection Needs) : Prop :=
  ∃ before id after, n.pending = before ++ id :: after ∧
    (fs.callersOf id).foldlM (Needs.settle limit id) { n with pending := before ++ after } = out

/-- So many rounds, none of which refuses a call. -/
inductive Needs.Rounds (limit : Amount) (fs : Frames) : Nat → Needs → Needs → Prop
  | refl (n : Needs) : Rounds limit fs 0 n n
  | next {k : Nat} {n m out : Needs} : Round limit fs n (.ok m) → Rounds limit fs k m out →
      Rounds limit fs (k + 1) n out

/-- What comes of pushing needs in some order: no frame is left pending, or a call is refused. -/
inductive Needs.Outcome (limit : Amount) (fs : Frames) (n : Needs) : Except Rejection Needs → Prop
  | settled {k : Nat} {m : Needs} : Rounds limit fs k n m → m.pending = [] →
      Outcome limit fs n (.ok m)
  | refused {k : Nat} {m : Needs} {r : Rejection} : Rounds limit fs k n m →
      Round limit fs m (.error r) → Outcome limit fs n (.error r)

theorem Needs.Outcome.next {out : Except Rejection Needs} (hround : Needs.Round limit fs n (.ok m))
    (h : Needs.Outcome limit fs m out) : Needs.Outcome limit fs n out := by
  cases h with
  | settled hrounds hdone => exact .settled (.next hround hrounds) hdone
  | refused hrounds hlast => exact .refused (.next hround hrounds) hlast

/-- The needs of the open frames are within the least ones and within the limit. -/
def Needs.Within (limit : Amount) (fs : Frames) (n : Needs) : Prop :=
  ∀ f, fs.find? f ≠ none → 0 ≤ n.need.getD f 0 ∧ n.need.getD f 0 ≤ limit.floor ∧
    ((n.need.getD f 0).toNat : ℕ∞) ≤ fs.leastNeeds f

/-- A call is refused, and rightly so. -/
def Frames.Refuses (limit : Amount) (fs : Frames) (r : Rejection) : Prop :=
  r.cause.reason = .stackUnderflow ∧ fs.Overdrawn limit

theorem Traversed.hasCall_of_mem (hs : Traversed job fs) (hsite : site ∈ fs.callersOf f) :
    fs.HasCall site ∧ f = .entry site.callee ∧ fs.find? site.caller ≠ none := by
  cases hF : fs.find? f with
  | none => simp [Frames.callersOf, hF] at hsite
  | some F =>
      obtain ⟨hf, hjustified, hopen⟩ := (hs.justified.frames f F hF).callers site
        (by simpa [Frames.callersOf, hF] using hsite)
      exact ⟨hs.hasCall_iff.2 ⟨hjustified.call, hjustified.resume⟩, hf, hopen⟩

/-- Raising a need to what a call requires keeps it within the least one. -/
theorem Needs.Within.raise {g : FrameId} {required : Int} (h : n.Within limit fs)
    (hmore : n.need.getD g 0 < required) (hopen : fs.find? g ≠ none)
    (hlimit : required ≤ limit.floor) (hleast : (required.toNat : ℕ∞) ≤ fs.leastNeeds g) :
    (n.raise g required).Within limit fs := by
  intro f hf
  rw [Needs.getD_raise]
  split
  · rename_i heq
    subst heq
    have := (h f hopen).1
    exact ⟨by omega, hlimit, hleast⟩
  · exact h f hf

/-- Settling a call keeps the needs within the least ones, or refuses a call that cannot be met. -/
theorem Needs.Within.settle (hs : Traversed job fs) (h : n.Within limit fs)
    (hmain : n.need.getD .main 0 = 0) (hsite : site ∈ fs.callersOf f) :
    match n.settle limit f site with
    | .ok m => m.Within limit fs
    | .error r => fs.Refuses limit r := by
  obtain ⟨hcall, rfl, hopen⟩ := hs.hasCall_of_mem hsite
  have hcallee : fs.find? (.entry site.callee) ≠ none := by
    obtain ⟨F, hF, -⟩ := hcall.2
    simp [hF]
  have hrequired := fs.isLeast_leastNeeds.1.required_le hcall (h _ hcallee).2.2
  have hnonneg := (h _ hopen).1
  obtain ⟨required, hdef⟩ : ∃ required,
      required = n.need.getD (.entry site.callee) 0 - site.depth := ⟨_, rfl⟩
  simp only [Needs.settle]
  rw [← hdef] at hrequired ⊢
  by_cases hless : required ≤ n.need.getD site.caller 0
  · rw [if_pos hless]
    exact h
  rw [if_neg hless]
  by_cases hbad : site.caller = .main ∨ limit.floor < required
  · -- the least solution requires as much of the caller, which is too much
    rw [if_pos hbad]
    refine ⟨rfl, ?_⟩
    rcases hbad with hcaller | hlimit
    · left
      rw [hcaller, hmain] at hless
      rw [hcaller] at hrequired
      refine lt_of_lt_of_le ?_ hrequired
      have : 0 < required.toNat := by omega
      exact_mod_cast this
    · right
      refine ⟨site.caller, hopen, lt_of_lt_of_le ?_ hrequired⟩
      have : limit.floor.toNat < required.toNat := by omega
      exact_mod_cast this
  · rw [if_neg hbad]
    rw [not_or] at hbad
    exact h.raise (Int.not_le.1 hless) hopen (Int.not_lt.1 hbad.2) hrequired

/-- All calls of a frame are looked at, up to the first one that cannot be met. -/
theorem Needs.Within.settle_callers (hs : Traversed job fs) {left : List CallSite}
    (hleft : ∀ site ∈ left, site ∈ fs.callersOf f) (hpushing : n.Pushing fs f left)
    (h : n.Within limit fs) :
    match left.foldlM (Needs.settle limit f) n with
    | .ok m => m.Within limit fs
    | .error r => fs.Refuses limit r := by
  induction left generalizing n with
  | nil => exact h
  | cons site rest ih =>
      have hsite := hleft site (List.mem_cons_self ..)
      have hstep := h.settle hs hpushing.main hsite
      rw [List.foldlM_cons]
      cases hsettle : n.settle limit f site with
      | error r =>
          rw [hsettle] at hstep
          exact hstep
      | ok m =>
          rw [hsettle] at hstep
          obtain ⟨-, -, hopen⟩ := hs.hasCall_of_mem hsite
          exact ih (fun site' hmem => hleft site' (List.mem_cons_of_mem _ hmem))
            (hpushing.settle hopen hsettle).1 hstep

/-- The needs between two rounds. -/
structure Needs.Sound (limit : Amount) (fs : Frames) (n : Needs) : Prop where
  pushing : ∃ id, n.Pushing fs id []
  within : n.Within limit fs

/-- What one round does. -/
theorem Needs.Sound.round (hs : Traversed job fs) (h : n.Sound limit fs)
    {out : Except Rejection Needs} (hround : Needs.Round limit fs n out) :
    match out with
    | .ok m => m.Sound limit fs ∧ m.room limit fs < n.room limit fs
    | .error r => fs.Refuses limit r := by
  obtain ⟨id, hpushing⟩ := h.pushing
  obtain ⟨before, taken, after, hpending, hout⟩ := hround
  have hwithin := Needs.Within.settle_callers hs (fun _ hmem => hmem) (hpushing.take hpending)
    h.within
  rw [hout] at hwithin
  cases out with
  | error r => exact hwithin
  | ok m =>
      obtain ⟨hm, hroom⟩ := hpushing.round hs.callers_open hpending hout
      exact ⟨⟨⟨taken, hm⟩, hwithin⟩, hroom⟩

/-- What several rounds do: each of them takes up room. -/
theorem Needs.Sound.rounds (hs : Traversed job fs) {k : Nat} (h : n.Sound limit fs)
    (hrounds : Needs.Rounds limit fs k n m) :
    m.Sound limit fs ∧ k + m.room limit fs ≤ n.room limit fs := by
  induction hrounds with
  | refl n => exact ⟨h, by omega⟩
  | next hround _ ih =>
      obtain ⟨hm, hroom⟩ := h.round hs hround
      obtain ⟨hout, hrest⟩ := ih hm
      exact ⟨hout, by omega⟩

/-- With no frame left pending, the needs are enough. -/
theorem Needs.Sound.enough (h : n.Sound limit fs) (hpending : n.pending = []) :
    fs.Enough (fun f => ((n.need.getD f 0).toNat : ℕ∞)) := by
  obtain ⟨id, hpushing⟩ := h.pushing
  have hmet := hpushing.met hpending
  constructor
  · intro f F hF
    have := hmet.low f F hF
    have : (-F.low).toNat ≤ (n.need.getD f 0).toNat := by omega
    exact_mod_cast this
  · rintro site ⟨⟨G, hG, -⟩, F, hF, hmem⟩
    have hcaller := (h.within site.caller (by simp [hG])).1
    have hcallee := (h.within (.entry site.callee) (by simp [hF])).1
    have := hmet.calls _ F hF site hmem
    have : (n.need.getD (.entry site.callee) 0).toNat + (-site.depth).toNat ≤
        (n.need.getD site.caller 0).toNat + site.depth.toNat := by omega
    exact_mod_cast this

/-- So they are the least ones, being within them, and every call is met. -/
theorem Needs.Sound.settled (hs : Traversed job fs) (h : n.Sound limit fs)
    (hpending : n.pending = []) :
    (∀ f, fs.find? f ≠ none → ∃ k : ℕ, n.need.getD f 0 = k ∧ fs.leastNeeds f = k) ∧
      ¬ fs.Overdrawn limit := by
  have heq : ∀ f, fs.find? f ≠ none → fs.leastNeeds f = ((n.need.getD f 0).toNat : ℕ∞) :=
    fun f hf => le_antisymm ((h.enough hpending).leastNeeds_le f) (h.within f hf).2.2
  constructor
  · intro f hf
    exact ⟨(n.need.getD f 0).toNat, (Int.toNat_of_nonneg (h.within f hf).1).symm, heq f hf⟩
  · rintro (hmain | ⟨f, hf, hlimit⟩)
    · obtain ⟨id, hpushing⟩ := h.pushing
      rw [heq .main hs.justified.main, hpushing.main] at hmain
      simp at hmain
    · rw [heq f hf] at hlimit
      have hle := (h.within f hf).2.1
      have : limit.floor.toNat < (n.need.getD f 0).toNat := by exact_mod_cast hlimit
      omega

/-- All orders come to the same end. -/
theorem Needs.Sound.outcome (hs : Traversed job fs) (h : n.Sound limit fs)
    {out : Except Rejection Needs} (hout : Needs.Outcome limit fs n out) :
    (∀ r, out = .error r → r.cause.reason = .stackUnderflow) ∧
      ((∃ r, out = .error r) ↔ fs.Overdrawn limit) ∧
      ∀ m, out = .ok m → ∀ f, fs.find? f ≠ none →
        ∃ k : ℕ, m.need.getD f 0 = k ∧ fs.leastNeeds f = k := by
  cases hout with
  | settled hrounds hdone =>
      obtain ⟨hneeds, hmet⟩ := (h.rounds hs hrounds).1.settled hs hdone
      exact ⟨by simp, by simpa using hmet, by simpa using hneeds⟩
  | refused hrounds hlast =>
      obtain ⟨hreason, hoverdrawn⟩ := (h.rounds hs hrounds).1.round hs hlast
      exact ⟨by simpa using hreason, by simpa using hoverdrawn, by simp⟩

/-- The needs at the start of pushing: no frame takes more than the limit itself. -/
theorem Needs.sound_start (hs : Traversed job fs) (hlimit : 0 ≤ job.limit.floor) :
    (Needs.start fs).Sound job.limit fs := by
  refine ⟨⟨.main, Needs.pushing_start hs⟩, fun f hf => ?_⟩
  obtain ⟨F, hF⟩ := Option.ne_none_iff_exists'.1 hf
  have hframe := hs.justified.frames f F hF
  have hnonpos := hframe.low_nonpos
  have hwithin := hframe.low_within
  rw [Needs.getD_start hs hF]
  exact ⟨by omega, by omega, fs.isLeast_leastNeeds.1.own f F hF⟩

/-- The loop takes the pending frames in an order of its own, and has the fuel for all rounds. -/
theorem Needs.outcome_settleAll (hs : Traversed job fs) {fuel : Nat} (h : n.Sound limit fs)
    (hfuel : n.room limit fs < fuel) :
    Needs.Outcome limit fs n (n.settleAll limit fs fuel) := by
  induction fuel generalizing n with
  | zero => omega
  | succ fuel ih =>
      rw [Needs.settleAll]
      cases hpending : n.pending with
      | nil => exact .settled (.refl n) hpending
      | cons next rest =>
          simp only
          split
          · rename_i r hr
            exact .refused (.refl n) ⟨[], next, rest, hpending, hr⟩
          · rename_i m hm
            have hround : Needs.Round limit fs n (.ok m) := ⟨[], next, rest, hpending, hm⟩
            obtain ⟨hm', hroom⟩ := h.round hs hround
            exact (ih hm' (by omega)).next hround

/-- The needs in the summaries are those that pushing ends with. -/
theorem needs_of_summarise (hs : Traversed job fs) {subroutines : List Summary}
    (h : summarise limit fs = .ok subroutines) :
    ∃ need, needs limit fs = .ok need ∧ ∀ σ ∈ subroutines,
      fs.find? (.entry σ.entry) ≠ none ∧ σ.needs = need.getD (.entry σ.entry) 0 := by
  obtain ⟨need, hneed, -, rfl⟩ := summarise_eq_ok_iff.1 h
  refine ⟨need, hneed, fun σ hσ => ?_⟩
  obtain ⟨F, hF, heq⟩ := (mem_summaries_iff hs.justified.nodup).1 hσ
  exact ⟨by simp [hF], congrArg Summary.needs heq⟩

/-- Behind a traversal, needs are pushed to callers until they are the least solution, whatever
order the pending frames are taken in: no order has more rounds than there is room below the limit, a
call is refused exactly if the least solution needs items in the main program or more than the limit
in some frame, and otherwise every frame ends with its least need.  The loop follows one of these
orders, so the needs in the summaries are the least ones. -/
theorem needs_least {s : State} (h : traverse job = .ok () s) (hlimit : 0 ≤ job.limit.floor) :
    IsLeast {N | s.frames.Enough N} s.frames.leastNeeds ∧
    (∀ k m, Needs.Rounds job.limit s.frames k (Needs.start s.frames) m →
      k ≤ s.frames.size * (job.limit.floor.toNat + 1)) ∧
    (∀ out, Needs.Outcome job.limit s.frames (Needs.start s.frames) out →
      (∀ r, out = .error r → r.cause.reason = .stackUnderflow) ∧
      ((∃ r, out = .error r) ↔ s.frames.Overdrawn job.limit) ∧
      ∀ m, out = .ok m → ∀ f, s.frames.find? f ≠ none →
        ∃ k : ℕ, m.need.getD f 0 = k ∧ s.frames.leastNeeds f = k) ∧
    (∃ out, Needs.Outcome job.limit s.frames (Needs.start s.frames) out ∧
      needs job.limit s.frames = out.map Needs.need) ∧
    ∀ subroutines, summarise job.limit s.frames = .ok subroutines → ∀ σ ∈ subroutines,
      ∃ k : ℕ, σ.needs = k ∧ s.frames.leastNeeds (.entry σ.entry) = k := by
  have hs := traversed_of_traverse h
  have hstart := Needs.sound_start hs hlimit
  have hroom := Needs.room_start hs job.limit
  have hloop := Needs.outcome_settleAll hs hstart (Nat.lt_succ_of_le hroom)
  refine ⟨s.frames.isLeast_leastNeeds, fun k m hrounds => ?_,
    fun out hout => hstart.outcome hs hout, ⟨_, hloop, rfl⟩, ?_⟩
  · have := (hstart.rounds hs hrounds).2
    omega
  · intro subroutines hsummarise σ hσ
    obtain ⟨need, hneed, hsummaries⟩ := needs_of_summarise hs hsummarise
    obtain ⟨hopen, hσneeds⟩ := hsummaries σ hσ
    obtain ⟨m, hm, rfl⟩ := needs_eq_ok_iff.1 hneed
    rw [hσneeds]
    exact (hstart.outcome hs hloop).2.2 m hm _ hopen

namespace Sample

/-- A subroutine that passes on what another one needs. -/
def nested : Job :=
  Job.make
    (Program.ofCode .immediate
      #[0x60, 0x00, 0x5d, 0x00, 0x00, 0x07, 0x00,
        0x5c, 0x5d, 0x00, 0x00, 0x0d, 0x5e, 0x5c, 0x15, 0x5e])
    JumpTable.empty (.whole 2) (.whole 2)

/-- The end of its traversal. -/
def nestedEnd : State where
  frames := ⟨[
    { id := .main
      depths := ((({} : Std.HashMap Nat Int).insert 0 0).insert 2 1).insert 6 1
      high := 1
      calls := [⟨.main, 7, 2, 6, 1⟩] },
    { id := .entry 7
      depths := ((({} : Std.HashMap Nat Int).insert 7 0).insert 8 0).insert 12 0
      net := some 0
      callers := [⟨.main, 7, 2, 6, 1⟩]
      calls := [⟨.entry 7, 13, 8, 12, 0⟩] },
    { id := .entry 13
      depths := ((({} : Std.HashMap Nat Int).insert 13 0).insert 14 0).insert 15 0
      low := -1
      net := some 0
      callers := [⟨.entry 7, 13, 8, 12, 0⟩] }]⟩
  worklist := []
  steps := 9

set_option maxRecDepth 10000 in
theorem traverse_nested : traverse nested = .ok () nestedEnd := by
  cbv

/-- A subroutine that takes an item of its caller and calls itself. -/
def draining : Job :=
  Job.make
    (Program.ofCode .immediate
      #[0x60, 0x00, 0x5d, 0x00, 0x00, 0x07, 0x00, 0x5c, 0x50, 0x5d, 0x00, 0x00, 0x07, 0x5e])
    JumpTable.empty (.whole 4) (.whole 2)

/-- The end of its traversal. -/
def drainingEnd : State where
  frames := ⟨[
    { id := .main
      depths := (({} : Std.HashMap Nat Int).insert 0 0).insert 2 1
      high := 1
      calls := [⟨.main, 7, 2, 6, 1⟩] },
    { id := .entry 7
      depths := ((({} : Std.HashMap Nat Int).insert 7 0).insert 8 0).insert 9 (-1)
      low := -1
      callers := [⟨.main, 7, 2, 6, 1⟩, ⟨.entry 7, 7, 9, 13, -1⟩]
      calls := [⟨.entry 7, 7, 9, 13, -1⟩] }]⟩
  worklist := []
  steps := 5

set_option maxRecDepth 10000 in
theorem traverse_draining : traverse draining = .ok () drainingEnd := by
  cbv

end Sample

theorem needs_least_samples :
    (0 : Int) ≤ 2 ∧ Sample.nestedEnd.frames.leastNeeds (.entry 7) = 1 ∧
      Sample.nestedEnd.frames.leastNeeds (.entry 13) = 1 ∧
      (0 : Int) ≤ 4 ∧ Sample.drainingEnd.frames.Overdrawn (.whole 4) := by
  have hnested : (0 : Int) ≤ 2 := by decide
  have hdraining : (0 : Int) ≤ 4 := by decide
  have hsummarise : summarise (.whole 2) Sample.nestedEnd.frames =
      .ok [⟨7, 1, some 0, 0⟩, ⟨13, 1, some 0, 0⟩] := by
    cbv
  have hneeds : needs (.whole 4) Sample.drainingEnd.frames =
      .error ⟨.shortCallSite 7 2 1, some 2, some (.opcode .jumpsub)⟩ := by
    cbv
  obtain ⟨-, -, -, -, hleast⟩ := needs_least Sample.traverse_nested hnested
  obtain ⟨-, -, houtcomes, ⟨out, hout, hmap⟩, -⟩ := needs_least Sample.traverse_draining hdraining
  obtain ⟨a, ha, houter⟩ := hleast _ hsummarise ⟨7, 1, some 0, 0⟩ (by simp)
  obtain ⟨b, hb, hinner⟩ := hleast _ hsummarise ⟨13, 1, some 0, 0⟩ (by simp)
  have hoverdrawn : Sample.drainingEnd.frames.Overdrawn (.whole 4) := by
    refine (houtcomes out hout).2.1.1 ?_
    rw [show needs Sample.draining.limit _ = _ from hneeds] at hmap
    cases out with
    | error r => exact ⟨r, rfl⟩
    | ok m => cases hmap
  obtain rfl : 1 = a := Int.ofNat_inj.1 ha
  obtain rfl : 1 = b := Int.ofNat_inj.1 hb
  exact ⟨hnested, houter, hinner, hdraining, hoverdrawn⟩

end FlowCheck.Validator
