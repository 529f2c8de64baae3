import FlowCheck.Proofs.SearchSteps
import Mathlib.Algebra.Order.BigOperators.Group.List
import Mathlib.Algebra.Order.Group.Nat
import Mathlib.Data.List.Dedup

/-!
# Strongly connected components

A search for components comes to its end, since each vertex and each edge pays for one of its steps
(`Search.debt_step`).  Then nothing is being searched and the stack is empty, so everything that was
met is in a component.  `components_partition` states what the components of a graph are.
-/

namespace FlowCheck.Graph

variable {α : Type} [BEq α] [Hashable α] {g : Graph α} {v w : α}

/-- A list of vertices that no search leaves, with a bound on the steps that they take. -/
structure Covers (g : Graph α) (vertices : List α) : Prop where
  roots : ∀ v ∈ g.roots, v ∈ vertices
  next : ∀ v ∈ vertices, ∀ w ∈ g.next v, w ∈ vertices
  bound : (vertices.map (fun v => (g.next v).length + 1)).sum ≤ g.bound

theorem Covers.reaches {vertices : List α} (h : g.Covers vertices) (hv : v ∈ vertices)
    (hpath : g.Reaches v w) : w ∈ vertices := by
  induction hpath with
  | refl => exact hv
  | tail _ hedge ih => exact h.next _ ih _ hedge

namespace Search

variable {s : Search α} {vertices : List α} {work : Pending α}

/-- The vertices of a list that are not met. -/
def unmet (s : Search α) (vertices : List α) : List α :=
  vertices.filter (fun v => !s.number.contains v)

/-- The steps still to make: one for each vertex that is not met or being searched, and one for each
of its successors still to look at. -/
def debt (g : Graph α) (vertices : List α) (work : Pending α) (s : Search α) : Nat :=
  ((s.unmet vertices).map (fun v => (g.next v).length + 1)).sum +
    (work.map (fun e => e.2.length + 1)).sum

/-- What remains to look at are successors, which no search leaves. -/
theorem Sound.mem_vertices (h : s.Sound g work) (hcovers : g.Covers vertices)
    {v : α} {rest : List α} (hentry : (v, rest) ∈ work) (hw : w ∈ rest) : w ∈ vertices := by
  have hv : v ∈ s.stack := h.layers.mem_stack (List.mem_map.2 ⟨_, hentry, rfl⟩)
  obtain ⟨r, hr, hpath⟩ := h.found v (h.stack_met hv)
  exact hcovers.next v (hcovers.reaches (hcovers.roots r hr) hpath) w (h.layers.rest_mem hentry hw)

variable [LawfulBEq α]

/-- A vertex that is met pays for its own steps. -/
theorem sum_unmet_meet (f : α → Nat) (hw : w ∈ vertices) (hnew : w ∉ s.number) :
    (((s.meet w).unmet vertices).map f).sum + f w ≤ ((s.unmet vertices).map f).sum := by
  obtain ⟨before, behind, rfl⟩ := List.append_of_mem hw
  have hle : ∀ l, (((s.meet w).unmet l).map f).sum ≤ ((s.unmet l).map f).sum := by
    intro l
    have hsub : ((s.meet w).unmet l).Sublist (s.unmet l) := by
      apply List.monotone_filter_right
      intro v hv
      simp only [Bool.not_eq_true', ← Bool.not_eq_true, Std.HashMap.contains_iff_mem] at hv ⊢
      exact fun hmem => hv ((mem_number_meet ..).2 (Or.inr hmem))
    exact (hsub.map f).sum_le_sum (by simp)
  have hbefore := hle before
  have hbehind := hle behind
  have hmet : (s.meet w).unmet (before ++ w :: behind) =
      (s.meet w).unmet before ++ (s.meet w).unmet behind := by
    simp [unmet, mem_number_meet]
  have hunmet : s.unmet (before ++ w :: behind) = s.unmet before ++ w :: s.unmet behind := by
    simp [unmet, hnew]
  rw [hmet, hunmet]
  simp only [List.map_append, List.map_cons, List.sum_append, List.sum_cons]
  omega

/-- Every step pays a part of the debt. -/
theorem debt_step (g : Graph α) (s : Search α) (v : α) {rest : List α} (work : Pending α)
    (hnext : ∀ w ∈ rest, w ∈ vertices) :
    debt g vertices (step g ((v, rest) :: work) s).1 (step g ((v, rest) :: work) s).2 <
      debt g vertices ((v, rest) :: work) s := by
  match rest, hnext with
  | [], _ =>
      rw [step]
      simp only [debt, unmet, number_finish, List.map_cons, List.sum_cons]
      omega
  | w :: rest, hnext =>
      rw [step]
      split
      · rename_i hnew
        have hpaid := sum_unmet_meet (fun v => (g.next v).length + 1)
          (hnext w (List.mem_cons_self ..)) (by simpa using hnew)
        simp only [debt, List.map_cons, List.sum_cons, List.length_cons]
        omega
      · split
        · show debt g vertices _ s < _
          simp only [debt, List.map_cons, List.sum_cons, List.length_cons]
          omega
        · simp only [debt, List.map_cons, List.sum_cons, List.length_cons]
          omega

theorem Sound.run {fuel : Nat} {work : Pending α} {s : Search α} (hcovers : g.Covers vertices)
    (h : s.Sound g work) (hfuel : debt g vertices work s ≤ fuel) :
    (run g fuel work s).Sound g [] ∧ ∀ v ∈ s.number, v ∈ (run g fuel work s).number := by
  induction fuel generalizing work s with
  | zero =>
      match work, h with
      | [], h => exact ⟨h, fun _ hv => hv⟩
      | (v, rest) :: work, h =>
          simp only [debt, List.map_cons, List.sum_cons] at hfuel
          omega
  | succ fuel ih =>
      match work, h with
      | [], h => exact ⟨h, fun _ hv => hv⟩
      | (v, rest) :: work, h =>
          have hnext : ∀ w ∈ rest, w ∈ vertices :=
            fun w hw => h.mem_vertices hcovers (List.mem_cons_self ..) hw
          have hpaid := debt_step g s v work hnext
          obtain ⟨hsound, hkeeps⟩ := ih h.step (by omega)
          exact ⟨hsound, fun w hw => hkeeps w (mem_number_step _ hw)⟩

/-- The search from a root meets it and comes to its end. -/
theorem Sound.start (hcovers : g.Covers vertices) (h : s.Sound g []) {root : α}
    (hroot : root ∈ g.roots) :
    (start g s root).Sound g [] ∧ ∀ v, v = root ∨ v ∈ s.number → v ∈ (start g s root).number := by
  rw [Search.start]
  split
  · rename_i hmet
    refine ⟨h, ?_⟩
    rintro v (rfl | hv)
    · exact Std.HashMap.contains_iff_mem.1 hmet
    · exact hv
  · rename_i hnew
    have hnew : root ∉ s.number := fun hmem => hnew (Std.HashMap.contains_iff_mem.2 hmem)
    have hsound : (s.meet root).Sound g [(root, g.next root)] := by
      apply h.meet hnew ⟨root, hroot, Relation.ReflTransGen.refl⟩
      · exact h.layers.meet (fun x hx => h.stack_met hx) hnew
      · simp
    have hdebt : debt g vertices [(root, g.next root)] (s.meet root) ≤ g.bound := by
      have hpaid := sum_unmet_meet (fun v => (g.next v).length + 1) (hcovers.roots root hroot) hnew
      have htotal : ((s.unmet vertices).map (fun v => (g.next v).length + 1)).sum ≤ g.bound :=
        Nat.le_trans ((List.filter_sublist.map _).sum_le_sum (by simp)) hcovers.bound
      simp only [debt, List.map_cons, List.map_nil, List.sum_cons, List.sum_nil]
      omega
    obtain ⟨hend, hkeeps⟩ := hsound.run hcovers hdebt
    refine ⟨hend, fun v hv => hkeeps v ((mem_number_meet ..).2 hv)⟩

theorem Sound.starts (hcovers : g.Covers vertices) {roots : List α}
    (hroots : ∀ r ∈ roots, r ∈ g.roots) {s : Search α} (h : s.Sound g []) :
    (roots.foldl (Search.start g) s).Sound g [] ∧
      ∀ v, v ∈ roots ∨ v ∈ s.number → v ∈ (roots.foldl (Search.start g) s).number := by
  induction roots generalizing s with
  | nil => exact ⟨h, fun v hv => hv.resolve_left (by simp)⟩
  | cons root rest ih =>
      obtain ⟨hsound, hkeeps⟩ := h.start hcovers (hroots root (List.mem_cons_self ..))
      obtain ⟨hend, hrest⟩ := ih (fun r hr => hroots r (List.mem_cons_of_mem _ hr)) hsound
      refine ⟨hend, fun v hv => hrest v ?_⟩
      rw [List.mem_cons, or_assoc] at hv
      rcases hv with hv | hv | hv
      · exact Or.inr (hkeeps v (Or.inl hv))
      · exact Or.inl hv
      · exact Or.inr (hkeeps v (Or.inr hv))

end Search

variable [LawfulBEq α]

/-! ## Components -/

theorem separated_components {vertices : List α} (h : g.Covers vertices) :
    Separated g g.components.reverse := by
  rw [components, List.reverse_reverse]
  exact ((Search.sound_start g).starts h (fun _ hr => hr)).1.separated

/-- The components hold exactly what the roots reach. -/
theorem mem_components_iff {vertices : List α} (h : g.Covers vertices) :
    (∃ c ∈ g.components, v ∈ c) ↔ ∃ r ∈ g.roots, g.Reaches r v := by
  obtain ⟨hsound, hroots⟩ := (Search.sound_start g).starts h (fun _ hr => hr)
  -- nothing is being searched any more, so nothing is on the stack
  have hmet : ∀ x, x ∈ (g.roots.foldl (Search.start g) {}).number ↔ ∃ c ∈ g.components, x ∈ c := by
    intro x
    have hstack : (g.roots.foldl (Search.start g) {}).stack = [] := by
      generalize hstack : (g.roots.foldl (Search.start g) {}).stack = stack
      have hlayers := hsound.layers
      rw [hstack] at hlayers
      cases hlayers
      rfl
    rw [hsound.met x, hstack, or_iff_right (by simp)]
    simp [components]
  constructor
  · intro hv
    exact hsound.found v ((hmet v).2 hv)
  · rintro ⟨r, hr, hpath⟩
    obtain ⟨c, hc, hrc⟩ := (hmet r).1 (hroots r (Or.inl hr))
    obtain ⟨d, hd, hvd⟩ := (separated_components h).reaches (List.mem_reverse.2 hc) hrc hpath
    exact ⟨d, List.mem_reverse.1 hd, hvd⟩

/-- In the order in which they come out, no component reaches a later one. -/
theorem pairwise_components {vertices : List α} (h : g.Covers vertices) :
    g.components.Pairwise (fun c later => ∀ x ∈ c, ∀ y ∈ later, ¬ g.Reaches x y) := by
  have horder := (separated_components h).order
  rwa [List.pairwise_reverse] at horder

/-! ## Graphs given by lists -/

/-- In a map filled from a list, the last entry of a key counts. -/
theorem getElem?_foldl_insert {β γ : Type} (key : γ → α) (value : γ → β) (l : List γ)
    (m : Std.HashMap α β) (k : α) :
    (l.foldl (fun m x => m.insert (key x) (value x)) m)[k]? =
      ((l.reverse.find? (fun x => key x == k)).map value).or m[k]? := by
  induction l generalizing m with
  | nil => simp
  | cons x rest ih =>
      rw [List.foldl_cons, ih, List.reverse_cons, List.find?_append, Std.HashMap.getElem?_insert]
      cases hfind : rest.reverse.find? (fun x => key x == k) with
      | some y => simp
      | none =>
          by_cases hkey : key x == k
          · simp [hkey]
          · simp [hkey]

/-- The successors that lists give a vertex; of two lists for one vertex the later one counts. -/
def listed (edges : List (α × List α)) (v : α) : List α :=
  ((edges.reverse.find? (fun e => e.1 == v)).map Prod.snd).getD []

theorem next_ofLists (roots : List α) (edges : List (α × List α)) (v : α) :
    (ofLists roots edges).next v = listed edges v := by
  show (edges.foldl (fun m e => m.insert e.1 e.2) {} : Std.HashMap α (List α)).getD v [] = _
  rw [Std.HashMap.getD_eq_getD_getElem?, getElem?_foldl_insert Prod.fst Prod.snd]
  simp [listed]

omit [Hashable α] [LawfulBEq α] in
theorem mem_listed {edges : List (α × List α)} (hw : w ∈ listed edges v) :
    ∃ e ∈ edges, w ∈ e.2 := by
  rw [listed] at hw
  cases hfind : edges.reverse.find? (fun e => e.1 == v) with
  | none => simp [hfind] at hw
  | some e =>
      refine ⟨e, List.mem_reverse.1 (List.mem_of_find?_eq_some hfind), ?_⟩
      simpa [hfind] using hw

/-- One entry of a map adds its length for one vertex at most. -/
theorem sum_insert_le {vertices : List α} (hnodup : vertices.Nodup)
    (m : Std.HashMap α (List α)) (k : α) (ws : List α) :
    (vertices.map (fun v => ((m.insert k ws).getD v []).length)).sum ≤
      (vertices.map (fun v => (m.getD v []).length)).sum + ws.length := by
  induction vertices with
  | nil => simp
  | cons v rest ih =>
      obtain ⟨hv, hrest⟩ := List.nodup_cons.1 hnodup
      have ih := ih hrest
      simp only [List.map_cons, List.sum_cons, Std.HashMap.getD_insert] at ih ⊢
      by_cases hk : k = v
      · subst hk
        have hothers : rest.map (fun v => (if k == v then ws else m.getD v []).length) =
            rest.map (fun v => (m.getD v []).length) := by
          apply List.map_congr_left
          intro v hmem
          rw [if_neg]
          rw [beq_iff_eq]
          rintro rfl
          exact hv hmem
        rw [hothers, beq_self_eq_true, if_pos rfl]
        omega
      · rw [if_neg (by simpa using hk)]
        omega

/-- No edge is counted twice. -/
theorem sum_next_le {vertices : List α} (hnodup : vertices.Nodup) (roots : List α)
    (edges : List (α × List α)) :
    (vertices.map (fun v => ((ofLists roots edges).next v).length)).sum ≤
      (edges.map (fun e => e.2.length)).sum := by
  have hfold : ∀ m : Std.HashMap α (List α),
      (vertices.map (fun v => ((edges.foldl (fun m e => m.insert e.1 e.2) m).getD v []).length)).sum ≤
        (vertices.map (fun v => (m.getD v []).length)).sum +
          (edges.map (fun e => e.2.length)).sum := by
    induction edges with
    | nil => simp
    | cons e rest ih =>
        intro m
        have hinsert := sum_insert_le hnodup m e.1 e.2
        have hrest := ih (m.insert e.1 e.2)
        simp only [List.foldl_cons, List.map_cons, List.sum_cons] at hrest ⊢
        omega
  have htotal := hfold {}
  have hempty :
      (vertices.map (fun v => (({} : Std.HashMap α (List α)).getD v []).length)).sum = 0 := by
    simp
  rw [hempty, Nat.zero_add] at htotal
  exact htotal

/-- The roots and the ends of all edges take no more steps than the bound. -/
theorem covers_ofLists (roots : List α) (edges : List (α × List α)) :
    ∃ vertices, (ofLists roots edges).Covers vertices := by
  have : DecidableEq α := instDecidableEqOfLawfulBEq
  have hmem : ∀ v, v ∈ (roots ++ edges.flatMap Prod.snd).dedup ↔
      v ∈ roots ∨ ∃ e ∈ edges, v ∈ e.2 := by simp
  refine ⟨(roots ++ edges.flatMap Prod.snd).dedup, ?_, ?_, ?_⟩
  · intro v hv
    exact (hmem v).2 (Or.inl hv)
  · intro v _ w hw
    rw [next_ofLists] at hw
    exact (hmem w).2 (Or.inr (mem_listed hw))
  · have hedges := sum_next_le (List.nodup_dedup (roots ++ edges.flatMap Prod.snd)) roots edges
    have hcount := (List.dedup_sublist (roots ++ edges.flatMap Prod.snd)).length_le
    have hends : (edges.flatMap Prod.snd).length = (edges.map (fun e => e.2.length)).sum :=
      List.length_flatMap
    rw [List.length_append, hends] at hcount
    have hones : ∀ l : List α, (l.map (fun _ => 1)).sum = l.length := by
      intro l
      simp
    rw [List.sum_map_add, hones]
    show _ ≤ roots.length + 2 * (edges.map (fun e => e.2.length)).sum
    omega

/-- The components of a graph that lists describe.  They hold exactly what the roots reach, each
vertex once; two vertices are in one component exactly if each reaches the other; and an edge from
one component into another leads to one that came out before. -/
theorem components_partition (roots : List α) (edges : List (α × List α)) :
    let reaches := Relation.ReflTransGen (fun v w => w ∈ listed edges v)
    let components := (ofLists roots edges).components
    (components.flatten.Nodup ∧ [] ∉ components ∧
      ∀ v, v ∈ components.flatten ↔ ∃ r ∈ roots, reaches r v) ∧
    (∀ c ∈ components, ∀ v ∈ c, ∀ w, w ∈ c ↔ reaches v w ∧ reaches w v) ∧
    ∀ i j (hi : i < components.length) (hj : j < components.length), i ≠ j →
      (∃ v ∈ components[i], ∃ w ∈ components[j], w ∈ listed edges v) → j < i := by
  intro reaches components
  obtain ⟨vertices, hcovers⟩ := covers_ofLists roots edges
  have hseparated := separated_components hcovers
  have hreaches : (ofLists roots edges).Reaches = reaches := by
    show Relation.ReflTransGen _ = Relation.ReflTransGen _
    congr
    funext v w
    rw [Edge, next_ofLists]
  have horder := pairwise_components hcovers
  refine ⟨⟨?_, ?_, ?_⟩, ?_, ?_⟩
  · apply List.nodup_flatten.2
    constructor
    · intro c hc
      exact hseparated.nodup c (List.mem_reverse.2 hc)
    · apply horder.imp
      intro c later hapart v hc hlater
      exact hapart v hc v hlater Relation.ReflTransGen.refl
  · intro hempty
    exact hseparated.nonempty [] (List.mem_reverse.2 hempty) rfl
  · intro v
    rw [List.mem_flatten, ← hreaches]
    exact mem_components_iff hcovers
  · intro c hc v hv w
    rw [← hreaches]
    exact hseparated.classes c (List.mem_reverse.2 hc) v hv w
  · rintro i j hi hj hne ⟨v, hv, w, hw, hedge⟩
    by_contra hle
    -- a later component would be reached
    apply List.pairwise_iff_getElem.1 horder i j hi hj (by omega) v hv w hw
    rw [hreaches]
    exact Relation.ReflTransGen.single hedge

namespace Sample

/-- Two vertices that lead to each other, one of them twice to the other, and from there to a vertex
with an edge to itself and to one that is not listed. -/
def looping : List (Nat × List Nat) := [(1, [2, 2]), (2, [1, 3]), (3, [3, 5])]

theorem components_looping : (ofLists [1, 1, 3] looping).components = [[5], [3], [2, 1]] := by
  cbv

end Sample

theorem components_partition_looping :
    LawfulBEq Nat ∧ Relation.ReflTransGen (fun v w => w ∈ listed Sample.looping v) 2 1 ∧
      ¬ (Relation.ReflTransGen (fun v w => w ∈ listed Sample.looping v) 3 2 ∧
        Relation.ReflTransGen (fun v w => w ∈ listed Sample.looping v) 2 3) := by
  obtain ⟨-, hclasses, -⟩ := components_partition [1, 1, 3] Sample.looping
  rw [Sample.components_looping] at hclasses
  refine ⟨inferInstance, ((hclasses [2, 1] (by decide) 2 (by decide) 1).1 (by decide)).1, ?_⟩
  intro hmutual
  have hmem := (hclasses [3] (by decide) 3 (by decide) 2).2 hmutual
  revert hmem
  decide

end FlowCheck.Graph
