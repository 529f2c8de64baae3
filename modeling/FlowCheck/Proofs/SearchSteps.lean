import FlowCheck.Graph
import Mathlib.Data.List.Nodup
import Mathlib.Logic.Relation

/-!
# The steps of a search for components

The search for components keeps its vertices on a stack in layers.  Each layer belongs to one of the
vertices being searched: at its bottom is that vertex, above it the ones that were met from it and
are finished (`Search.Layers`).  Within a layer, every edge that was looked at leads to a vertex that
is met, and if that vertex is on the stack, its number is not below what the layer's vertex is known
to lead to (`Search.Layer`).

So if a vertex leads to no number below its own, no edge leaves its layer except to complete
components, and the layer is a class of mutual reachability (`Search.Sound.close`).  Otherwise the
vertex reaches a lower layer, and its own layer joins the one below (`Search.Sound.join`).  Every
step keeps what holds of a search (`Search.Sound.step`).
-/

namespace FlowCheck.Graph

variable {α : Type} [BEq α] [Hashable α]

/-- An edge of the graph. -/
def Edge (g : Graph α) (v w : α) : Prop :=
  w ∈ g.next v

/-- A path of any length, the empty one included. -/
def Reaches (g : Graph α) : α → α → Prop :=
  Relation.ReflTransGen g.Edge

/-- Complete components, the last one first: classes of mutual reachability without repetitions, no
edge out of them, and none reached from an earlier one. -/
structure Separated (g : Graph α) (components : List (List α)) : Prop where
  nonempty : ∀ c ∈ components, c ≠ []
  nodup : ∀ c ∈ components, c.Nodup
  classes : ∀ c ∈ components, ∀ v ∈ c, ∀ w, w ∈ c ↔ g.Reaches v w ∧ g.Reaches w v
  closed : ∀ c ∈ components, ∀ v ∈ c, ∀ w ∈ g.next v, ∃ d ∈ components, w ∈ d
  order : components.Pairwise (fun c earlier => ∀ x ∈ earlier, ∀ y ∈ c, ¬ g.Reaches x y)

namespace Search

/-- The vertex `w` is met, and if it is on the stack, its number is not below what `v` leads to. -/
def Bounds (s : Search α) (v w : α) : Prop :=
  w ∈ s.number ∧ (w ∈ s.stack → s.lowOf v ≤ s.numberOf w)

/-- The numbers on a stack fall from its top to its bottom. -/
def Falling (s : Search α) (stack : List α) : Prop :=
  stack.Pairwise (fun v w => s.numberOf w < s.numberOf v)

/-- A layer of the stack: a vertex being searched, with the successors still to look at, the finished
vertices `above` it and the stack `below` it.  The vertices searched further out are `outer`. -/
structure Layer (g : Graph α) (s : Search α) (v : α) (rest outer above below : List α) :
    Prop where
  looked : ∃ looked, g.next v = looked ++ rest ∧ ∀ w ∈ looked, s.Bounds v w
  finished : ∀ a ∈ above, ∀ w ∈ g.next a, s.Bounds v w
  leads : ∀ a ∈ above, g.Reaches v a
  returns : ∀ a ∈ above, ∃ u ∈ v :: outer, g.Reaches a u
  low : ∃ x ∈ v :: below, s.numberOf x = s.lowOf v ∧ g.Reaches v x
  met : ∀ u ∈ outer.head?, g.Reaches u v

/-- The stack is made of the layers of the vertices being searched. -/
inductive Layers (g : Graph α) (s : Search α) : Pending α → List α → Prop
  | nil : Layers g s [] []
  | cons {v : α} {rest above below : List α} {work : Pending α} :
      s.Layer g v rest (work.map Prod.fst) above below → Layers g s work below →
        Layers g s ((v, rest) :: work) (above ++ v :: below)

/-- What holds of a search between two steps. -/
structure Sound (g : Graph α) (work : Pending α) (s : Search α) : Prop where
  found : ∀ v ∈ s.number, ∃ r ∈ g.roots, g.Reaches r v
  met : ∀ v, v ∈ s.number ↔ v ∈ s.stack ∨ ∃ c ∈ s.complete, v ∈ c
  onStack : ∀ v, v ∈ s.onStack ↔ v ∈ s.stack
  falling : s.Falling s.stack
  numbered : ∀ v ∈ s.stack, s.numberOf v < s.count
  apart : ∀ v ∈ s.stack, ∀ c ∈ s.complete, v ∉ c
  layers : s.Layers g work s.stack
  separated : Separated g s.complete

end Search

variable {g : Graph α} {u v w : α}

theorem Separated.reaches {components : List (List α)} (h : Separated g components)
    {c : List α} (hc : c ∈ components) (hv : v ∈ c) (hpath : g.Reaches v w) :
    ∃ d ∈ components, w ∈ d := by
  induction hpath with
  | refl => exact ⟨c, hc, hv⟩
  | tail _ hedge ih =>
      obtain ⟨d, hd, hx⟩ := ih
      exact h.closed d hd _ hx _ hedge

/-- One more class, from which edges lead to itself and to the earlier ones only. -/
theorem Separated.extend {components : List (List α)} (h : Separated g components) {c : List α}
    (hnonempty : c ≠ []) (hnodup : c.Nodup)
    (hclass : ∀ v ∈ c, ∀ w, w ∈ c ↔ g.Reaches v w ∧ g.Reaches w v)
    (hclosed : ∀ v ∈ c, ∀ w ∈ g.next v, w ∈ c ∨ ∃ d ∈ components, w ∈ d)
    (hapart : ∀ v ∈ c, ∀ d ∈ components, v ∉ d) : Separated g (c :: components) where
  nonempty := List.forall_mem_cons.2 ⟨hnonempty, h.nonempty⟩
  nodup := List.forall_mem_cons.2 ⟨hnodup, h.nodup⟩
  classes := List.forall_mem_cons.2 ⟨hclass, h.classes⟩
  closed := by
    intro d hd v hv w hw
    rcases List.mem_cons.1 hd with rfl | hd
    · rcases hclosed v hv w hw with hw | ⟨e, he, hw⟩
      · exact ⟨d, List.mem_cons_self .., hw⟩
      · exact ⟨e, List.mem_cons_of_mem _ he, hw⟩
    · obtain ⟨e, he, hw⟩ := h.closed d hd v hv w hw
      exact ⟨e, List.mem_cons_of_mem _ he, hw⟩
  order := by
    apply List.pairwise_cons.2
    constructor
    · intro d hd x hx y hy hpath
      obtain ⟨e, he, hye⟩ := h.reaches hd hx hpath
      exact hapart y hy e he hye
    · exact h.order

namespace Search

variable {s s' : Search α} {rest outer above below : List α} {work : Pending α}

/-! ## Layers -/

/-- A search goes on: what is met stays met with its number, and is not put back on the stack. -/
def Keeps (s s' : Search α) : Prop :=
  ∀ w ∈ s.number, w ∈ s'.number ∧ s'.numberOf w = s.numberOf w ∧ (w ∈ s'.stack → w ∈ s.stack)

theorem Bounds.mono (h : s.Bounds v w) (hkeeps : s.Keeps s') (hlow : s'.lowOf u ≤ s.lowOf v) :
    s'.Bounds u w := by
  obtain ⟨hnumber, hsame, hstack⟩ := hkeeps w h.1
  constructor
  · exact hnumber
  · intro hw
    have := h.2 (hstack hw)
    omega

theorem Falling.lt (h : s.Falling (above ++ v :: below)) {x : α} (hx : x ∈ below) :
    s.numberOf x < s.numberOf v :=
  (List.pairwise_cons.1 (List.pairwise_append.1 h).2.1).1 x hx

theorem Falling.tail (h : s.Falling (above ++ v :: below)) : s.Falling below :=
  (List.pairwise_cons.1 (List.pairwise_append.1 h).2.1).2

theorem Falling.not_mem (h : s.Falling (above ++ v :: below)) : v ∉ below := by
  intro hmem
  have := h.lt hmem
  omega

/-- A vertex of the stack with a smaller number than a layer's vertex is below the layer. -/
theorem Falling.mem_below (h : s.Falling (above ++ v :: below)) {x : α}
    (hx : x ∈ above ++ v :: below) (hlt : s.numberOf x < s.numberOf v) : x ∈ below := by
  have habove := (List.pairwise_append.1 h).2.2
  rcases List.mem_append.1 hx with hx | hx
  · have := habove x hx v (List.mem_cons_self ..)
    omega
  · rcases List.mem_cons.1 hx with rfl | hx
    · omega
    · exact hx

theorem Layer.low_le (h : s.Layer g v rest outer above below)
    (hfalling : s.Falling (above ++ v :: below)) : s.lowOf v ≤ s.numberOf v := by
  obtain ⟨x, hx, hnumber, -⟩ := h.low
  rcases List.mem_cons.1 hx with rfl | hx
  · omega
  · have := hfalling.lt hx
    omega

theorem Layer.transfer (h : s.Layer g v rest outer above below) (hkeeps : s.Keeps s')
    (hmet : ∀ x ∈ v :: below, x ∈ s.number) (hlow : s'.lowOf v = s.lowOf v) :
    s'.Layer g v rest outer above below where
  looked := by
    obtain ⟨looked, hnext, hbounds⟩ := h.looked
    exact ⟨looked, hnext, fun w hw => (hbounds w hw).mono hkeeps (by omega)⟩
  finished a ha w hw := (h.finished a ha w hw).mono hkeeps (by omega)
  leads := h.leads
  returns := h.returns
  low := by
    obtain ⟨x, hx, hnumber, hpath⟩ := h.low
    have hsame := (hkeeps x (hmet x hx)).2.1
    exact ⟨x, hx, by omega, hpath⟩
  met := h.met

theorem Layers.transfer {stack : List α} (h : s.Layers g work stack) (hkeeps : s.Keeps s')
    (hmet : ∀ x ∈ stack, x ∈ s.number)
    (hlow : ∀ u ∈ work.map Prod.fst, s'.lowOf u = s.lowOf u) : s'.Layers g work stack := by
  induction h with
  | nil => exact Layers.nil
  | @cons v rest above below work hlayer _ ih =>
      have hbelow : ∀ x ∈ v :: below, x ∈ s.number := by
        intro x hx
        exact hmet x (List.mem_append_right _ hx)
      apply Layers.cons
      · exact hlayer.transfer hkeeps hbelow (hlow v (List.mem_cons_self ..))
      · apply ih
        · intro x hx
          exact hbelow x (List.mem_cons_of_mem _ hx)
        · intro u hu
          exact hlow u (List.mem_cons_of_mem _ hu)

theorem Layers.mem_stack {stack : List α} (h : s.Layers g work stack)
    (hu : u ∈ work.map Prod.fst) : u ∈ stack := by
  induction h with
  | nil => cases hu
  | cons _ _ ih =>
      rcases List.mem_cons.1 hu with rfl | hu
      · simp
      · exact List.mem_append_right _ (List.mem_cons_of_mem _ (ih hu))

theorem Layers.rest_mem {stack : List α} (h : s.Layers g work stack) (hentry : (v, rest) ∈ work)
    (hw : w ∈ rest) : w ∈ g.next v := by
  induction h with
  | nil => cases hentry
  | cons hlayer _ ih =>
      rcases List.mem_cons.1 hentry with heq | hentry
      · cases heq
        obtain ⟨looked, hnext, -⟩ := hlayer.looked
        rw [hnext]
        exact List.mem_append_right _ hw
      · exact ih hentry

/-- Every vertex on the stack reaches one that is being searched. -/
theorem Layers.returns {stack : List α} (h : s.Layers g work stack) {x : α} (hx : x ∈ stack) :
    ∃ u ∈ work.map Prod.fst, g.Reaches x u := by
  induction h with
  | nil => cases hx
  | @cons v rest above below work hlayer _ ih =>
      rcases List.mem_append.1 hx with hx | hx
      · exact hlayer.returns x hx
      · rcases List.mem_cons.1 hx with rfl | hx
        · exact ⟨x, List.mem_cons_self .., Relation.ReflTransGen.refl⟩
        · obtain ⟨u, hu, hpath⟩ := ih hx
          exact ⟨u, List.mem_cons_of_mem _ hu, hpath⟩

theorem Layer.edge (h : s.Layer g v (w :: rest) outer above below) : g.Edge v w := by
  obtain ⟨looked, hnext, -⟩ := h.looked
  show w ∈ g.next v
  rw [hnext]
  simp

/-- One more successor has been looked at. -/
theorem Layer.advance (h : s.Layer g v (w :: rest) outer above below) (hbounds : s.Bounds v w) :
    s.Layer g v rest outer above below := by
  obtain ⟨looked, hnext, hlooked⟩ := h.looked
  have hlooked' : ∀ x ∈ looked ++ [w], s.Bounds v x := by
    intro x hx
    rcases List.mem_append.1 hx with hx | hx
    · exact hlooked x hx
    · rw [List.mem_singleton.1 hx]
      exact hbounds
  exact { h with looked := ⟨looked ++ [w], by simp [hnext], hlooked'⟩ }

/-- With no successor left, all edges out of a layer have been looked at. -/
theorem Layer.bounds (h : s.Layer g v [] outer above below) {a : α} (ha : a ∈ above ++ [v])
    (hw : w ∈ g.next a) : s.Bounds v w := by
  rcases List.mem_append.1 ha with ha | ha
  · exact h.finished a ha w hw
  · obtain ⟨looked, hnext, hlooked⟩ := h.looked
    rw [List.mem_singleton.1 ha, hnext, List.append_nil] at hw
    exact hlooked w hw

namespace Sound

theorem stack_met (h : s.Sound g work) (hv : v ∈ s.stack) : v ∈ s.number :=
  (h.met v).2 (Or.inl hv)

theorem nodup_stack (h : s.Sound g work) : s.stack.Nodup := by
  apply h.falling.imp
  rintro v w hlt rfl
  omega

/-- The innermost layer, and those below it. -/
theorem top (h : s.Sound g ((v, rest) :: work)) : ∃ above below,
    s.stack = above ++ v :: below ∧ s.Layer g v rest (work.map Prod.fst) above below ∧
      s.Layers g work below := by
  generalize hstack : s.stack = stack
  have hlayers := h.layers
  rw [hstack] at hlayers
  cases hlayers with
  | cons hlayer hlayers => exact ⟨_, _, rfl, hlayer, hlayers⟩

end Sound

theorem sound_start (g : Graph α) : ({} : Search α).Sound g [] where
  found := by simp
  met := by simp
  onStack := by simp
  falling := List.Pairwise.nil
  numbered := by simp
  apart := by simp
  layers := Layers.nil
  separated := ⟨by simp, by simp, by simp, by simp, List.Pairwise.nil⟩

variable [LawfulBEq α]

/-! ## Meeting a vertex -/

theorem numberOf_meet (s : Search α) (v w : α) :
    (s.meet v).numberOf w = if v == w then s.count else s.numberOf w :=
  Std.HashMap.getD_insert

theorem lowOf_meet (s : Search α) (v w : α) :
    (s.meet v).lowOf w = if v == w then s.count else s.lowOf w :=
  Std.HashMap.getD_insert

theorem mem_number_meet (s : Search α) (v w : α) :
    w ∈ (s.meet v).number ↔ w = v ∨ w ∈ s.number := by
  show w ∈ s.number.insert v s.count ↔ _
  rw [Std.HashMap.mem_insert, beq_iff_eq, eq_comm]

/-- What was met before keeps its number and what it leads to. -/
theorem of_meet (hv : v ∉ s.number) (hw : w ∈ s.number) :
    (s.meet v).numberOf w = s.numberOf w ∧ (s.meet v).lowOf w = s.lowOf w := by
  have hne : ¬ (v == w) = true := by
    rw [beq_iff_eq]
    rintro rfl
    exact hv hw
  rw [numberOf_meet, lowOf_meet, if_neg hne, if_neg hne]
  exact ⟨rfl, rfl⟩

theorem keeps_meet (hv : v ∉ s.number) : s.Keeps (s.meet v) := by
  intro w hw
  refine ⟨(mem_number_meet ..).2 (Or.inr hw), (of_meet hv hw).1, ?_⟩
  intro hstack
  rcases List.mem_cons.1 hstack with rfl | hstack
  · exact absurd hw hv
  · exact hstack

theorem Layers.meet {stack : List α} (h : s.Layers g work stack) (hmet : ∀ x ∈ stack, x ∈ s.number)
    (hv : v ∉ s.number) : (s.meet v).Layers g work stack := by
  apply h.transfer (keeps_meet hv) hmet
  intro u hu
  exact (of_meet hv (hmet u (h.mem_stack hu))).2

/-- A vertex is met from the innermost vertex being searched, or as a root. -/
theorem Sound.meet {work' : Pending α} (h : s.Sound g work) (hv : v ∉ s.number)
    (hroot : ∃ r ∈ g.roots, g.Reaches r v) (hlayers : (s.meet v).Layers g work' s.stack)
    (hmet : ∀ u ∈ (work'.map Prod.fst).head?, g.Reaches u v) :
    (s.meet v).Sound g ((v, g.next v) :: work') := by
  have hself : (s.meet v).numberOf v = s.count := by simp [numberOf_meet]
  have hsame : ∀ x ∈ s.stack, (s.meet v).numberOf x = s.numberOf x :=
    fun x hx => (of_meet hv (h.stack_met hx)).1
  constructor
  · intro x hx
    rcases (mem_number_meet ..).1 hx with rfl | hx
    · exact hroot
    · exact h.found x hx
  · intro x
    rw [mem_number_meet, h.met x, ← or_assoc, ← List.mem_cons]
    rfl
  · intro x
    show x ∈ s.onStack.insert v ↔ x ∈ v :: s.stack
    rw [Std.HashSet.mem_insert, h.onStack x, beq_iff_eq, List.mem_cons, eq_comm]
  · apply List.pairwise_cons.2
    constructor
    · intro x hx
      rw [hself, hsame x hx]
      exact h.numbered x hx
    · apply h.falling.imp_of_mem
      intro x y hx hy hlt
      rw [hsame x hx, hsame y hy]
      exact hlt
  · intro x hx
    show _ < s.count + 1
    rcases List.mem_cons.1 hx with rfl | hx
    · omega
    · have := h.numbered x hx
      rw [hsame x hx]
      omega
  · intro x hx c hc hxc
    rcases List.mem_cons.1 hx with rfl | hx
    · exact hv ((h.met x).2 (Or.inr ⟨c, hc, hxc⟩))
    · exact h.apart x hx c hc hxc
  · -- the new vertex is a layer of its own
    have hlayer : (s.meet v).Layer g v (g.next v) (work'.map Prod.fst) [] s.stack := by
      refine ⟨⟨[], rfl, by simp⟩, by simp, by simp, by simp, ?_, hmet⟩
      refine ⟨v, List.mem_cons_self .., ?_, Relation.ReflTransGen.refl⟩
      rw [hself, lowOf_meet, beq_self_eq_true]
      rfl
    exact Layers.cons hlayer hlayers
  · exact h.separated

/-- The next successor is met for the first time. -/
theorem Sound.descend {work' : Pending α} (h : s.Sound g ((v, w :: rest) :: work'))
    (hw : w ∉ s.number) : (s.meet w).Sound g ((w, g.next w) :: (v, rest) :: work') := by
  obtain ⟨above, below, hstack, hlayer, hlayers⟩ := h.top
  have hmet : ∀ x ∈ above ++ v :: below, x ∈ s.number := by
    intro x hx
    exact h.stack_met (by rwa [hstack])
  have hv : v ∈ s.number := hmet v (by simp)
  apply h.meet hw
  · obtain ⟨r, hr, hpath⟩ := h.found v hv
    exact ⟨r, hr, hpath.tail hlayer.edge⟩
  · -- the edge that led to the new vertex is bounded, since its number is the greatest
    have hlow : (s.meet w).lowOf v ≤ (s.meet w).numberOf w := by
      have hfalling := h.falling
      rw [hstack] at hfalling
      have hle := hlayer.low_le hfalling
      have hnumber := h.numbered v (by simp [hstack])
      rw [(of_meet hw hv).2, numberOf_meet, if_pos (beq_self_eq_true w)]
      omega
    have hbounds : (s.meet w).Bounds v w := ⟨(mem_number_meet ..).2 (Or.inl rfl), fun _ => hlow⟩
    have hmeet := (Layers.cons hlayer hlayers).meet hmet hw
    rw [hstack]
    generalize above ++ v :: below = stack at hmeet
    cases hmeet with
    | cons hlayer hlayers => exact Layers.cons (hlayer.advance hbounds) hlayers
  · intro u hu
    cases hu
    exact Relation.ReflTransGen.single hlayer.edge

/-! ## Learning what a vertex leads to -/

theorem lowOf_lower (s : Search α) (v : α) (n : Nat) (w : α) :
    (s.lower v n).lowOf w = if v == w then min (s.lowOf v) n else s.lowOf w :=
  Std.HashMap.getD_insert

theorem lowOf_lower_self (s : Search α) (v : α) (n : Nat) :
    (s.lower v n).lowOf v = min (s.lowOf v) n := by
  simp [lowOf_lower]

theorem lowOf_lower_of_ne (hne : v ≠ w) (n : Nat) : (s.lower v n).lowOf w = s.lowOf w := by
  rw [lowOf_lower, if_neg (by simpa using hne)]

omit [LawfulBEq α] in
theorem keeps_lower (s : Search α) (v : α) (n : Nat) : s.Keeps (s.lower v n) :=
  fun _ hw => ⟨hw, rfl, id⟩

omit [LawfulBEq α] in
/-- The stack stays as it is when something is learned about a vertex or its layers change. -/
theorem Sound.lower {work' : Pending α} (h : s.Sound g work) {v : α} {n : Nat}
    (hlayers : (s.lower v n).Layers g work' s.stack) : (s.lower v n).Sound g work' where
  found := h.found
  met := h.met
  onStack := h.onStack
  falling := h.falling
  numbered := h.numbered
  apart := h.apart
  layers := hlayers
  separated := h.separated

/-- What is learned about one vertex leaves the layers of the others alone. -/
theorem Layers.lower {stack : List α} (h : s.Layers g work stack) (hmet : ∀ x ∈ stack, x ∈ s.number)
    (hv : v ∉ stack) (n : Nat) : (s.lower v n).Layers g work stack := by
  apply h.transfer (keeps_lower s v n) hmet
  intro u hu
  apply lowOf_lower_of_ne
  rintro rfl
  exact hv (h.mem_stack hu)

/-- A layer's vertex leads to the number of a vertex that it reaches. -/
theorem Layer.lower (h : s.Layer g v rest outer above below) {x : α} (hpath : g.Reaches v x)
    (hx : s.numberOf x < s.lowOf v → x ∈ v :: below) :
    (s.lower v (s.numberOf x)).Layer g v rest outer above below where
  looked := by
    obtain ⟨looked, hnext, hbounds⟩ := h.looked
    refine ⟨looked, hnext, fun w hw => (hbounds w hw).mono (keeps_lower s v _) ?_⟩
    rw [lowOf_lower_self]
    omega
  finished a ha w hw := by
    apply (h.finished a ha w hw).mono (keeps_lower s v _)
    rw [lowOf_lower_self]
    omega
  leads := h.leads
  returns := h.returns
  low := by
    rw [lowOf_lower_self]
    by_cases hlt : s.numberOf x < s.lowOf v
    · refine ⟨x, hx hlt, ?_, hpath⟩
      show s.numberOf x = _
      omega
    · obtain ⟨y, hy, hnumber, hpath⟩ := h.low
      refine ⟨y, hy, ?_, hpath⟩
      show s.numberOf y = _
      omega
  met := h.met

/-- The next successor is on the stack. -/
theorem Sound.note {work' : Pending α} (h : s.Sound g ((v, w :: rest) :: work'))
    (hw : w ∈ s.stack) : (s.lower v (s.numberOf w)).Sound g ((v, rest) :: work') := by
  obtain ⟨above, below, hstack, hlayer, hlayers⟩ := h.top
  have hfalling := h.falling
  rw [hstack] at hfalling
  apply h.lower
  rw [hstack]
  apply Layers.cons
  · apply Layer.advance (w := w)
    · apply hlayer.lower (Relation.ReflTransGen.single hlayer.edge)
      intro hlt
      have hle := hlayer.low_le hfalling
      rw [hstack] at hw
      exact List.mem_cons_of_mem _ (hfalling.mem_below hw (by omega))
    · refine ⟨h.stack_met hw, fun _ => ?_⟩
      rw [lowOf_lower_self]
      show _ ≤ s.numberOf w
      omega
  · apply hlayers.lower
    · intro x hx
      exact h.stack_met (by simp [hstack, hx])
    · exact hfalling.not_mem

omit [LawfulBEq α] in
/-- The next successor belongs to a complete component. -/
theorem Sound.pass {work' : Pending α} (h : s.Sound g ((v, w :: rest) :: work'))
    (hw : w ∈ s.number) (hstack : w ∉ s.stack) : s.Sound g ((v, rest) :: work') := by
  obtain ⟨above, below, hsplit, hlayer, hlayers⟩ := h.top
  have hbounds : s.Bounds v w := ⟨hw, fun hmem => absurd hmem hstack⟩
  have hlayers' := Layers.cons (hlayer.advance hbounds) hlayers
  rw [← hsplit] at hlayers'
  exact { h with layers := hlayers' }

/-! ## Finishing a vertex -/

omit [LawfulBEq α] in
/-- Finished vertices are added to a layer. -/
theorem Layer.cover (h : s.Layer g v rest outer above below) {added : List α}
    (hbounds : ∀ a ∈ added, ∀ w ∈ g.next a, s.Bounds v w) (hleads : ∀ a ∈ added, g.Reaches v a)
    (hreturns : ∀ a ∈ added, ∃ u ∈ v :: outer, g.Reaches a u) :
    s.Layer g v rest outer (added ++ above) below where
  looked := h.looked
  finished a ha := (List.mem_append.1 ha).elim (hbounds a) (h.finished a)
  leads a ha := (List.mem_append.1 ha).elim (hleads a) (h.leads a)
  returns a ha := (List.mem_append.1 ha).elim (hreturns a) (h.returns a)
  low := h.low
  met := h.met

/-- A vertex that leads to a smaller number is finished: its layer joins the one below. -/
theorem Sound.join {work' : Pending α} {rest : List α}
    (h : s.Sound g ((v, []) :: (u, rest) :: work')) (hlow : s.lowOf v ≠ s.numberOf v) :
    (s.lower u (s.lowOf v)).Sound g ((u, rest) :: work') := by
  obtain ⟨above, stack, hstack, hv, hlayers⟩ := h.top
  have hfalling := h.falling
  rw [hstack] at hfalling
  have hlt : s.lowOf v < s.numberOf v := by
    have := hv.low_le hfalling
    omega
  -- what `v` leads to lies below it, and from there a vertex being searched is reached
  obtain ⟨x, hx, hnumber, hvx⟩ := hv.low
  have hx : x ∈ stack := hfalling.mem_below (List.mem_append_right _ hx) (by omega)
  obtain ⟨y, hy, hxy⟩ := hlayers.returns hx
  have huv : g.Reaches u v := hv.met u rfl
  cases hlayers with
  | @cons _ _ above' below _ hu hlayers =>
      have hfalling' := hfalling.tail
      apply h.lower
      have hsplit : s.stack = ((above ++ [v]) ++ above') ++ u :: below := by simp [hstack]
      rw [hsplit, ← hnumber]
      apply Layers.cons
      · apply Layer.cover
        · apply hu.lower (huv.trans hvx)
          intro hless
          have hle := hu.low_le hfalling'
          exact List.mem_cons_of_mem _ (hfalling'.mem_below hx (by omega))
        · intro a ha w hw
          apply (hv.bounds ha hw).mono (keeps_lower s u _)
          rw [lowOf_lower_self]
          omega
        · intro a ha
          rcases List.mem_append.1 ha with ha | ha
          · exact huv.trans (hv.leads a ha)
          · rwa [List.mem_singleton.1 ha]
        · intro a ha
          have hback : ∃ z ∈ v :: u :: work'.map Prod.fst, g.Reaches a z := by
            rcases List.mem_append.1 ha with ha | ha
            · exact hv.returns a ha
            · exact ⟨v, List.mem_cons_self .., by rw [List.mem_singleton.1 ha]; exact .refl⟩
          obtain ⟨z, hz, haz⟩ := hback
          rcases List.mem_cons.1 hz with rfl | hz
          · exact ⟨y, hy, haz.trans (hvx.trans hxy)⟩
          · exact ⟨z, hz, haz⟩
      · apply hlayers.lower
        · intro a ha
          exact h.stack_met (by simp [hstack, ha])
        · exact hfalling'.not_mem

omit [Hashable α] in
theorem cutBelow_append (hv : v ∉ above) (below : List α) :
    cutBelow v (above ++ v :: below) = (above ++ [v], below) := by
  induction above with
  | nil => simp [cutBelow]
  | cons a above ih =>
      rw [List.mem_cons, not_or] at hv
      have ha : (a == v) = false := by simpa using Ne.symm hv.1
      simp [cutBelow, ha, ih hv.2]

/-- Closing a vertex takes its layer off the stack. -/
theorem close_eq (hstack : s.stack = above ++ v :: below) (hv : v ∉ above) :
    s.close v = { s with
      stack := below
      onStack := (above ++ [v]).foldl (fun set w => set.erase w) s.onStack
      complete := (above ++ [v]) :: s.complete } := by
  rw [close, hstack, cutBelow_append hv]

theorem mem_foldl_erase (c : List α) (set : Std.HashSet α) :
    w ∈ c.foldl (fun set x => set.erase x) set ↔ w ∈ set ∧ w ∉ c := by
  induction c generalizing set with
  | nil => simp
  | cons a c ih =>
      rw [List.foldl_cons, ih, Std.HashSet.mem_erase, List.mem_cons, beq_eq_false_iff_ne, ne_comm]
      tauto

omit [LawfulBEq α] in
/-- No edge leaves the layer of a vertex that leads to no number below its own, except to complete
components. -/
theorem Layer.closed (h : s.Layer g v [] outer above below) (hs : s.Sound g work)
    (hstack : s.stack = above ++ v :: below) (hlow : s.lowOf v = s.numberOf v) {a : α}
    (ha : a ∈ above ++ [v]) (hw : w ∈ g.next a) :
    w ∈ above ++ [v] ∨ ∃ d ∈ s.complete, w ∈ d := by
  obtain ⟨hmet, hbound⟩ := h.bounds ha hw
  refine ((hs.met w).1 hmet).imp_left (fun hw => ?_)
  have hle := hbound hw
  have hfalling := hs.falling
  rw [hstack] at hw hfalling
  have hsplit : w ∈ above ++ [v] ∨ w ∈ below := by simpa [or_assoc] using hw
  refine hsplit.resolve_right (fun hbelow => ?_)
  have := hfalling.lt hbelow
  omega

omit [LawfulBEq α] in
/-- The layer of such a vertex is a class of mutual reachability. -/
theorem Layer.mem_iff (h : s.Layer g v [] (work.map Prod.fst) above below)
    (hlayers : s.Layers g work below) {work' : Pending α} (hs : s.Sound g work')
    (hstack : s.stack = above ++ v :: below) (hlow : s.lowOf v = s.numberOf v) {a : α}
    (ha : a ∈ above ++ [v]) : w ∈ above ++ [v] ↔ g.Reaches a w ∧ g.Reaches w a := by
  have hmem : ∀ x ∈ above ++ [v], x ∈ s.stack := by
    intro x hx
    rw [hstack]
    simp only [List.mem_append, List.mem_cons] at hx ⊢
    tauto
  have hreach : ∀ x ∈ above ++ [v], ∀ y, g.Reaches x y →
      y ∈ above ++ [v] ∨ ∃ d ∈ s.complete, y ∈ d := by
    intro x hx y hpath
    induction hpath with
    | refl => exact Or.inl hx
    | tail _ hedge ih =>
        rcases ih with hy | ⟨d, hd, hy⟩
        · exact h.closed hs hstack hlow hy hedge
        · exact Or.inr (hs.separated.closed d hd _ hy _ hedge)
  have hleads : ∀ x ∈ above ++ [v], g.Reaches v x := by
    intro x hx
    rcases List.mem_append.1 hx with hx | hx
    · exact h.leads x hx
    · rw [List.mem_singleton.1 hx]
      exact Relation.ReflTransGen.refl
  have hreturns : ∀ x ∈ above ++ [v], g.Reaches x v := by
    intro x hx
    rcases List.mem_append.1 hx with habove | hx
    · obtain ⟨u, hu, hpath⟩ := h.returns x habove
      rcases List.mem_cons.1 hu with rfl | hu
      · exact hpath
      · -- a vertex searched further out lies below the layer and cannot be reached from it
        have hbelow := hlayers.mem_stack hu
        have hnodup := hs.nodup_stack
        rw [hstack, List.append_cons, List.nodup_append] at hnodup
        rcases hreach x hx u hpath with hu | ⟨d, hd, hu⟩
        · exact absurd rfl (hnodup.2.2 u hu u hbelow)
        · exact absurd hu (hs.apart u (by simp [hstack, hbelow]) d hd)
    · rw [List.mem_singleton.1 hx]
      exact Relation.ReflTransGen.refl
  constructor
  · intro hw
    exact ⟨(hreturns a ha).trans (hleads w hw), (hreturns w hw).trans (hleads a ha)⟩
  · rintro ⟨haw, hwa⟩
    refine (hreach a ha w haw).resolve_right ?_
    rintro ⟨d, hd, hw⟩
    obtain ⟨e, he, hae⟩ := hs.separated.reaches hd hw hwa
    exact hs.apart a (hmem a ha) e he hae

/-- A vertex that leads to no number below its own is finished: its layer is a component. -/
theorem Sound.close {work' : Pending α} (h : s.Sound g ((v, []) :: work'))
    (hlow : s.lowOf v = s.numberOf v) : (s.close v).Sound g work' := by
  obtain ⟨above, below, hstack, hlayer, hlayers⟩ := h.top
  have hnodup := h.nodup_stack
  have hfalling := h.falling
  rw [hstack] at hnodup hfalling
  rw [List.append_cons, List.nodup_append] at hnodup
  obtain ⟨hcomponent, hrest, hapart⟩ := hnodup
  have hv : v ∉ above := fun hmem => (List.nodup_append.1 hcomponent).2.2 v hmem v (by simp) rfl
  have hmem : ∀ x, x ∈ s.stack ↔ x ∈ above ++ [v] ∨ x ∈ below := by
    intro x
    rw [hstack, List.append_cons, List.mem_append]
  rw [close_eq hstack hv]
  constructor
  · exact h.found
  · intro x
    show x ∈ s.number ↔ x ∈ below ∨ ∃ c ∈ (above ++ [v]) :: s.complete, x ∈ c
    have hcomplete : (∃ c ∈ (above ++ [v]) :: s.complete, x ∈ c) ↔
        x ∈ above ++ [v] ∨ ∃ c ∈ s.complete, x ∈ c := by simp
    rw [h.met x, hmem x, hcomplete]
    tauto
  · intro x
    show x ∈ (above ++ [v]).foldl (fun set w => set.erase w) s.onStack ↔ x ∈ below
    rw [mem_foldl_erase, h.onStack x, hmem x]
    constructor
    · rintro ⟨hx, hnot⟩
      exact hx.resolve_left hnot
    · intro hx
      exact ⟨Or.inr hx, fun hx' => hapart x hx' x hx rfl⟩
  · exact hfalling.tail
  · intro x hx
    exact h.numbered x ((hmem x).2 (Or.inr hx))
  · intro x hx c hc hxc
    rcases List.mem_cons.1 hc with rfl | hc
    · exact hapart x hxc x hx rfl
    · exact h.apart x ((hmem x).2 (Or.inr hx)) c hc hxc
  · apply hlayers.transfer
    · intro x hx
      exact ⟨hx, rfl, fun hbelow => (hmem x).2 (Or.inr hbelow)⟩
    · intro x hx
      exact h.stack_met ((hmem x).2 (Or.inr hx))
    · intro u _
      rfl
  · apply h.separated.extend
    · simp
    · exact hcomponent
    · intro a ha w
      exact hlayer.mem_iff hlayers h hstack hlow ha
    · intro a ha w hw
      exact hlayer.closed h hstack hlow ha hw
    · intro a ha d hd
      exact h.apart a ((hmem a).2 (Or.inl ha)) d hd

omit [LawfulBEq α] in
/-- A vertex below which nothing is searched leads to its own number. -/
theorem Sound.lowOf_last (h : s.Sound g [(v, [])]) : s.lowOf v = s.numberOf v := by
  obtain ⟨above, below, -, hlayer, hlayers⟩ := h.top
  cases hlayers with
  | nil =>
      obtain ⟨x, hx, hnumber, -⟩ := hlayer.low
      rw [List.mem_singleton.1 hx] at hnumber
      exact hnumber.symm

/-- The vertex that a component was met from leads to a smaller number than the component does. -/
theorem Sound.lower_outer {rest : List α} {work' : Pending α}
    (h : s.Sound g ((v, []) :: (u, rest) :: work')) (hlow : s.lowOf v = s.numberOf v) :
    (s.lower u (s.lowOf v)).Sound g ((v, []) :: (u, rest) :: work') := by
  have hless : s.lowOf u < s.lowOf v := by
    obtain ⟨above, stack, hstack, -, hlayers⟩ := h.top
    have hfalling := h.falling
    rw [hstack] at hfalling
    cases hlayers with
    | @cons _ _ above' below _ hu _ =>
        have hle := hu.low_le hfalling.tail
        have hlt := hfalling.lt (x := u) (by simp)
        omega
  apply h.lower
  apply h.layers.transfer (keeps_lower s u _) (fun x hx => h.stack_met hx)
  intro w _
  rw [lowOf_lower]
  split
  · rename_i heq
    rw [← beq_iff_eq.1 heq]
    omega
  · rfl

theorem Sound.finish {outer : Pending α} (h : s.Sound g ((v, []) :: outer)) :
    (s.finish v outer).Sound g outer := by
  cases outer with
  | nil =>
      show (if s.lowOf v = s.numberOf v then s.close v else s).Sound g []
      rw [if_pos h.lowOf_last]
      exact h.close h.lowOf_last
  | cons entry work =>
      obtain ⟨u, rest⟩ := entry
      have hsame : (s.lower u (s.lowOf v)).lowOf v = s.lowOf v := by
        obtain ⟨above, stack, hstack, -, hlayers⟩ := h.top
        have hfalling := h.falling
        rw [hstack] at hfalling
        apply lowOf_lower_of_ne
        rintro rfl
        exact hfalling.not_mem (hlayers.mem_stack (by simp))
      have hnumber : (s.lower u (s.lowOf v)).numberOf v = s.numberOf v := rfl
      show (if (s.lower u (s.lowOf v)).lowOf v = (s.lower u (s.lowOf v)).numberOf v then
        (s.lower u (s.lowOf v)).close v else s.lower u (s.lowOf v)).Sound g ((u, rest) :: work)
      rw [hsame, hnumber]
      split
      · rename_i hlow
        exact (h.lower_outer hlow).close (by rw [hsame, hnumber, hlow])
      · rename_i hlow
        exact h.join hlow

/-! ## Steps -/

theorem Sound.step {work : Pending α} (h : s.Sound g work) :
    (step g work s).2.Sound g (step g work s).1 := by
  match work, h with
  | [], h => exact h
  | (v, []) :: outer, h => exact h.finish
  | (v, w :: rest) :: outer, h =>
      rw [Search.step]
      split
      · rename_i hnew
        exact h.descend (by simpa using hnew)
      · rename_i hmet
        split
        · rename_i hstack
          exact h.note ((h.onStack w).1 (Std.HashSet.contains_iff_mem.1 hstack))
        · rename_i hstack
          apply h.pass (by simpa using hmet)
          rw [← h.onStack w]
          exact fun hmem => hstack (Std.HashSet.contains_iff_mem.2 hmem)

omit [LawfulBEq α] in
theorem number_finish (s : Search α) (v : α) (outer : Pending α) :
    (s.finish v outer).number = s.number := by
  unfold finish
  cases outer <;> dsimp only <;> split <;> rfl

theorem mem_number_step (work : Pending α) (hv : v ∈ s.number) :
    v ∈ (step g work s).2.number := by
  match work with
  | [] => exact hv
  | (u, []) :: outer =>
      rw [step, number_finish]
      exact hv
  | (u, w :: rest) :: outer =>
      rw [step]
      split
      · exact (mem_number_meet ..).2 (Or.inr hv)
      · split <;> exact hv

end Search

end FlowCheck.Graph
