import FlowCheck.JumpTable.Search

/-!
# What the queries of a jump table find

A binary search over a table agrees with a look at every edge.  `partitionPoint_le_iff` is the one
statement about the search itself; membership, sources and targets follow from it and from the order
of the table.
-/

namespace FlowCheck.JumpTable

variable {t : JumpTable}

/-- Edges at ascending positions of a table ascend. -/
theorem before_of_lt {j l : Nat} {a b : Edge} (hj : t.edges[j]? = some a)
    (hl : t.edges[l]? = some b) (hlt : j < l) : a.Before b := by
  obtain ⟨hjs, rfl⟩ := Array.getElem?_eq_some_iff.1 hj
  obtain ⟨hls, rfl⟩ := Array.getElem?_eq_some_iff.1 hl
  exact List.pairwise_iff_getElem.1 t.sorted j l (by simpa using hjs) (by simpa using hls) hlt

/-- The search narrows an interval outside of which the test is already decided. -/
theorem firstIndex_spec {test : Edge → Bool}
    (hup : ∀ a b : Edge, a.Before b → test a = true → test b = true) (lo hi : Nat)
    (hlohi : lo ≤ hi) (hhi : hi ≤ t.edges.size)
    (hbelow : ∀ j e, t.edges[j]? = some e → j < lo → test e = false)
    (habove : ∀ j e, t.edges[j]? = some e → hi ≤ j → test e = true) :
    firstIndex t.edges test lo hi ≤ t.edges.size ∧
      ∀ j e, t.edges[j]? = some e →
        (test e = true ↔ firstIndex t.edges test lo hi ≤ j) := by
  -- the invariant: below the interval the test fails, from its end on it holds
  fun_induction firstIndex t.edges test lo hi with
  | case1 lo hi hlt mid hmid =>
      have hsize := Array.getElem?_eq_none_iff.1 hmid
      omega
  | case2 lo hi hlt mid e hmid htest ih =>
      refine ih (by omega) (by omega) hbelow ?_
      intro j e' he' hj
      rcases Nat.eq_or_lt_of_le hj with rfl | hj
      · rw [hmid] at he'
        cases he'
        exact htest
      · exact hup e e' (before_of_lt hmid he' hj) htest
  | case3 lo hi hlt mid e hmid htest ih =>
      refine ih (by omega) hhi ?_ habove
      intro j e' he' hj
      rcases Nat.eq_or_lt_of_le (Nat.le_of_lt_succ hj) with rfl | hj
      · rw [hmid] at he'
        cases he'
        simpa using htest
      · cases htest' : test e' with
        | false => rfl
        | true => exact absurd (hup e' e (before_of_lt he' hmid hj) htest') htest
  | case4 lo hi hlt =>
      obtain rfl : lo = hi := by omega
      refine ⟨hhi, fun j e he => ⟨fun htest => ?_, fun hj => habove j e he hj⟩⟩
      rcases Nat.lt_or_ge j lo with hj | hj
      · exact absurd htest (by simp [hbelow j e he hj])
      · exact hj

/-- The test holds exactly from the partition point on. -/
theorem partitionPoint_le_iff {test : Edge → Bool}
    (hup : ∀ a b : Edge, a.Before b → test a = true → test b = true) {j : Nat} {e : Edge}
    (he : t.edges[j]? = some e) : test e = true ↔ t.partitionPoint test ≤ j := by
  refine (firstIndex_spec hup 0 t.edges.size (by omega) (by omega) (by omega) ?_).2 j e he
  intro l e' he' hl
  rw [Array.getElem?_eq_none hl] at he'
  exact absurd he' (by simp)

/-- If the test holds anywhere, the partition point is the first place where it does. -/
theorem exists_at_partitionPoint {test : Edge → Bool}
    (hup : ∀ a b : Edge, a.Before b → test a = true → test b = true) {e : Edge}
    (he : e ∈ t.edges) (htest : test e = true) :
    ∃ a, t.edges[t.partitionPoint test]? = some a ∧ test a = true ∧ (a = e ∨ a.Before e) := by
  obtain ⟨j, hj⟩ := Array.mem_iff_getElem?.1 he
  have hle := (partitionPoint_le_iff hup hj).1 htest
  have hsize : t.partitionPoint test < t.edges.size := by
    have := (Array.getElem?_eq_some_iff.1 hj).1
    omega
  refine ⟨_, Array.getElem?_eq_getElem hsize, ?_, ?_⟩
  · exact (partitionPoint_le_iff hup (Array.getElem?_eq_getElem hsize)).2 (Nat.le_refl _)
  · rcases Nat.eq_or_lt_of_le hle with heq | hlt
    · left
      rw [← heq, Array.getElem?_eq_getElem hsize] at hj
      simpa using hj
    · exact Or.inr (before_of_lt (Array.getElem?_eq_getElem hsize) hj hlt)

theorem sourceTest_up (source : Int) (a b : Edge) (h : a.Before b)
    (ha : decide (source ≤ a.source) = true) : decide (source ≤ b.source) = true := by
  simp only [decide_eq_true_eq] at ha ⊢
  unfold Edge.Before at h
  omega

theorem sourceTest_strict_up (source : Int) (a b : Edge) (h : a.Before b)
    (ha : decide (source < a.source) = true) : decide (source < b.source) = true := by
  simp only [decide_eq_true_eq] at ha ⊢
  unfold Edge.Before at h
  omega

theorem reaches_up (source dest : Int) (a b : Edge) (h : a.Before b)
    (ha : reaches source dest a = true) : reaches source dest b = true := by
  simp only [reaches, Bool.or_eq_true, Bool.and_eq_true, beq_iff_eq, decide_eq_true_eq] at ha ⊢
  unfold Edge.Before at h
  omega

/-- A source is listed exactly if some edge starts there. -/
theorem hasSource_iff {source : Int} :
    t.hasSource source = true ↔ ∃ e ∈ t.edges, (e.source : Int) = source := by
  unfold hasSource
  constructor
  · intro h
    cases hat : t.edges[t.partitionPoint fun e => source ≤ e.source]? with
    | none => simp [hat] at h
    | some e => exact ⟨e, Array.mem_of_getElem? hat, by simpa [hat] using h⟩
  · rintro ⟨e, he, hsource⟩
    obtain ⟨a, ha, htest, hae⟩ := exists_at_partitionPoint (sourceTest_up source) he
      (by simp only [decide_eq_true_eq]; omega)
    simp only [ha, beq_iff_eq]
    simp only [decide_eq_true_eq] at htest
    rcases hae with rfl | hbefore
    · exact hsource
    · unfold Edge.Before at hbefore
      omega

/-- An edge is declared exactly if it is one of the table. -/
theorem hasEdge_iff {source dest : Int} :
    t.hasEdge source dest = true ↔
      ∃ e ∈ t.edges, (e.source : Int) = source ∧ (e.dest : Int) = dest := by
  unfold hasEdge
  constructor
  · intro h
    cases hat : t.edges[t.partitionPoint (reaches source dest)]? with
    | none => simp [hat] at h
    | some e => exact ⟨e, Array.mem_of_getElem? hat, by simpa [hat] using h⟩
  · rintro ⟨e, he, hsource, hdest⟩
    obtain ⟨a, ha, htest, hae⟩ := exists_at_partitionPoint (reaches_up source dest) he
      (by simp [reaches, hsource, hdest])
    simp only [ha, Bool.and_eq_true, beq_iff_eq]
    simp only [reaches, Bool.or_eq_true, Bool.and_eq_true, beq_iff_eq, decide_eq_true_eq] at htest
    rcases hae with rfl | hbefore
    · exact ⟨hsource, hdest⟩
    · unfold Edge.Before at hbefore
      omega

/-- A stretch of a list that holds exactly the elements of a property is the list filtered by it. -/
theorem filter_eq_drop_take {α : Type} {p : α → Bool} {l : List α} {lo hi : Nat}
    (h : ∀ j a, l[j]? = some a → (p a = true ↔ lo ≤ j ∧ j < hi)) :
    l.filter p = (l.take hi).drop lo := by
  induction l generalizing lo hi with
  | nil => simp
  | cons a l ih =>
      have hhead := h 0 a rfl
      have htail : ∀ j b, l[j]? = some b → (p b = true ↔ lo - 1 ≤ j ∧ j < hi - 1) := by
        intro j b hb
        rw [h (j + 1) b (by simpa using hb)]
        omega
      cases hi with
      | zero =>
          have hnone : p a = false := by
            cases hpa : p a with
            | false => rfl
            | true => exact absurd (hhead.1 hpa) (by omega)
          simpa [hnone] using ih htail
      | succ hi =>
          cases lo with
          | zero => simpa [hhead.2 (by omega)] using ih htail
          | succ lo =>
              have hnone : p a = false := by
                cases hpa : p a with
                | false => rfl
                | true => exact absurd (hhead.1 hpa) (by omega)
              simpa [hnone] using ih htail

/-- The targets of a source are the destinations of its edges, in the order of the table. -/
theorem targets_eq_filter (t : JumpTable) (source : Int) :
    t.targets source =
      (t.edges.toList.filter (fun e => (e.source : Int) == source)).map Edge.dest := by
  have hstretch : ∀ j e, t.edges.toList[j]? = some e →
      (((e.source : Int) == source) = true ↔
        t.partitionPoint (fun e => source ≤ e.source) ≤ j ∧
          j < t.partitionPoint (fun e => source < e.source)) := by
    intro j e he
    rw [Array.getElem?_toList] at he
    have hlo := partitionPoint_le_iff (sourceTest_up source) he
    have hhi := partitionPoint_le_iff (sourceTest_strict_up source) he
    simp only [decide_eq_true_eq] at hlo hhi
    rw [beq_iff_eq, ← hlo]
    omega
  rw [filter_eq_drop_take hstretch, ← List.extract_eq_drop_take', ← Array.toList_extract]
  rfl

theorem mem_targets_iff {source : Int} {dest : Nat} :
    dest ∈ t.targets source ↔ ∃ e ∈ t.edges, (e.source : Int) = source ∧ e.dest = dest := by
  rw [targets_eq_filter]
  simp only [List.mem_map, List.mem_filter, beq_iff_eq, Array.mem_toList_iff]
  exact ⟨fun ⟨e, ⟨he, hs⟩, hd⟩ => ⟨e, he, hs, hd⟩, fun ⟨e, he, hs, hd⟩ => ⟨e, ⟨he, hs⟩, hd⟩⟩

/-- A declared edge of a source is one of its targets. -/
theorem hasEdge_iff_mem_targets {source : Int} {dest : Nat} :
    t.hasEdge source dest = true ↔ dest ∈ t.targets source := by
  rw [hasEdge_iff, mem_targets_iff]
  constructor
  · rintro ⟨e, he, hs, hd⟩
    exact ⟨e, he, hs, by omega⟩
  · rintro ⟨e, he, hs, hd⟩
    exact ⟨e, he, hs, by omega⟩

theorem hasSource_of_targets_ne_nil {source : Int} (h : t.targets source ≠ []) :
    t.hasSource source = true := by
  obtain ⟨dest, hdest⟩ := List.exists_mem_of_ne_nil _ h
  obtain ⟨e, he, hs, -⟩ := mem_targets_iff.1 hdest
  exact hasSource_iff.2 ⟨e, he, hs⟩

theorem targets_ne_nil_of_hasSource {source : Int} (h : t.hasSource source = true) :
    t.targets source ≠ [] := by
  obtain ⟨e, he, hs⟩ := hasSource_iff.1 h
  exact List.ne_nil_of_mem (mem_targets_iff.2 ⟨e, he, hs, rfl⟩)

/-- Edges of one source are ordered by their destinations, so targets ascend without repetition. -/
theorem targets_ascend (t : JumpTable) (source : Int) : (t.targets source).Pairwise (· < ·) := by
  rw [targets_eq_filter, List.pairwise_map]
  apply (t.sorted.filter _).imp_of_mem
  intro a b ha hb hbefore
  have hsa : (a.source : Int) = source := by simpa using (List.mem_filter.1 ha).2
  have hsb : (b.source : Int) = source := by simpa using (List.mem_filter.1 hb).2
  unfold Edge.Before at hbefore
  omega

/-- The queries of a table agree with its edges and with each other, at all integers.  An edge is
declared exactly if the table holds it.  The targets of a source are the destinations of its edges,
each once and in ascending order.  A source is listed exactly if it has targets, and an edge is
declared exactly if its destination is one of the targets of its source. -/
theorem queries_agree (t : JumpTable) (source dest : Int) :
    (t.hasEdge source dest = true ↔
      ∃ e ∈ t.edges, (e.source : Int) = source ∧ (e.dest : Int) = dest) ∧
    (t.targets source =
        (t.edges.toList.filter (fun e => (e.source : Int) == source)).map Edge.dest ∧
      (t.targets source).Pairwise (· < ·)) ∧
    (t.hasSource source = true ↔ t.targets source ≠ []) ∧
    (t.hasEdge source dest = true ↔ ∃ target ∈ t.targets source, (target : Int) = dest) := by
  refine ⟨hasEdge_iff, ⟨targets_eq_filter t source, targets_ascend t source⟩,
    ⟨targets_ne_nil_of_hasSource, hasSource_of_targets_ne_nil⟩, ?_, ?_⟩
  · intro h
    obtain ⟨e, he, hs, hd⟩ := hasEdge_iff.1 h
    exact ⟨e.dest, mem_targets_iff.2 ⟨e, he, hs, rfl⟩, hd⟩
  · rintro ⟨target, htarget, rfl⟩
    exact hasEdge_iff_mem_targets.2 htarget

end FlowCheck.JumpTable
