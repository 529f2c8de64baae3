import FlowCheck.JumpTable.Document
import FlowCheck.Record
import Mathlib.Data.Prod.Lex

/-!
# The formats of a jump table

A table is loaded from pairs, from wire bytes and from documents, and all three loaders add one edge
after the other.  What they accept is said once, of the edges: a list is loaded exactly if it is the
list of the ends of some table (`load_eq_ok_iff`), and such lists are the ascending ones
(`exists_ends_iff`).  On the wire a table has one form only (`decode_eq_ok_iff`).  A document is
checked against its shape first and then read as the pairs that it names (`ofDocument_of_accepts`).
-/

namespace FlowCheck.JumpTable

variable {α β : Type} {read : Nat → α → Except TableError Edge} {t t' : JumpTable} {e : Edge}

theorem ext_edges (h : t.edges.toList = t'.edges.toList) : t = t' := by
  obtain ⟨edges, sorted⟩ := t
  obtain ⟨edges', sorted'⟩ := t'
  obtain rfl : edges = edges' := Array.toList_inj.1 h
  rfl

/-! ## Loading -/

theorem extend_eq_ok_iff {index : Nat} :
    t.extend index e = .ok t' ↔ t'.edges.toList = t.edges.toList ++ [e] := by
  constructor
  · intro h
    unfold extend at h
    split at h
    · cases h
      exact Array.toList_push
    · split at h
      · cases h
        exact Array.toList_push
      · split at h <;> cases h
  · intro h
    have hsorted : (t.edges.push e).toList.Pairwise Edge.Before := by
      rw [Array.toList_push, ← h]
      exact t'.sorted
    obtain rfl : (⟨t.edges.push e, hsorted⟩ : JumpTable) = t' :=
      ext_edges (by rw [h, Array.toList_push])
    unfold extend
    split
    · rfl
    · rename_i last hlast
      -- the last edge stands in front of the new one in the longer table
      have hmem : last ∈ t.edges.toList := by
        rw [Array.mem_toList_iff]
        exact Array.mem_of_back? hlast
      rw [Array.toList_push, List.pairwise_append] at hsorted
      rw [dif_pos (hsorted.2.2 last hmem e (List.mem_singleton_self e))]

/-- What a loader of items that stand for edges takes: exactly the items of the edges it adds. -/
theorem loadFrom_eq_ok_iff {view : Edge → α}
    (hread : ∀ index item e, read index item = .ok e ↔ view e = item) {index : Nat}
    {items : List α} :
    loadFrom read t index items = .ok t' ↔
      ∃ es, t'.edges.toList = t.edges.toList ++ es ∧ es.map view = items := by
  induction items generalizing t index with
  | nil =>
      constructor
      · intro h
        cases h
        exact ⟨[], (List.append_nil _).symm, rfl⟩
      · rintro ⟨es, hedges, hmap⟩
        obtain rfl := List.map_eq_nil_iff.1 hmap
        rw [List.append_nil] at hedges
        rw [loadFrom, ext_edges hedges]
  | cons item rest ih =>
      constructor
      · intro h
        rw [loadFrom] at h
        split at h
        · cases h
        · rename_i edge hedge
          split at h
          · cases h
          · rename_i longer hlonger
            obtain ⟨es, hedges, hmap⟩ := ih.1 h
            rw [extend_eq_ok_iff.1 hlonger, List.append_assoc] at hedges
            refine ⟨edge :: es, hedges, ?_⟩
            rw [List.map_cons, (hread _ _ _).1 hedge, hmap]
      · rintro ⟨es, hedges, hmap⟩
        obtain ⟨edge, es, rfl, hedge, hrest⟩ := List.map_eq_cons_iff.1 hmap
        have hsorted : (t.edges.push edge).toList.Pairwise Edge.Before := by
          have hbefore := t'.sorted
          rw [hedges, ← List.singleton_append, ← List.append_assoc] at hbefore
          rw [Array.toList_push]
          exact (List.pairwise_append.1 hbefore).1
        have hextend : t.extend index edge = .ok ⟨t.edges.push edge, hsorted⟩ :=
          extend_eq_ok_iff.2 Array.toList_push
        rw [loadFrom, (hread _ _ _).2 hedge]
        dsimp only
        rw [hextend]
        refine ih.2 ⟨es, ?_, hrest⟩
        rw [hedges, Array.toList_push, List.append_assoc, List.singleton_append]

/-- An edge that the order of a table refuses. -/
def Misordered (error : TableError) : Prop :=
  ∃ index edge previous, error = .duplicate index edge previous ∨
    error = .unsorted index edge previous

/-- A loader fails at an item that it cannot read, or at one that is out of order. -/
theorem loadFrom_error {index : Nat} {items : List α} {error : TableError}
    (h : loadFrom read t index items = .error error) :
    (∃ index, ∃ item ∈ items, read index item = .error error) ∨ Misordered error := by
  induction items generalizing t index with
  | nil => cases h
  | cons item rest ih =>
      rw [loadFrom] at h
      split at h
      · rename_i hread
        cases h
        exact Or.inl ⟨index, item, List.mem_cons_self, hread⟩
      · rename_i edge hread
        split at h
        · rename_i hextend
          cases h
          right
          unfold extend at hextend
          split at hextend
          · cases hextend
          · split at hextend
            · cases hextend
            · split at hextend <;> cases hextend
              · exact ⟨_, _, _, Or.inl rfl⟩
              · exact ⟨_, _, _, Or.inr rfl⟩
        · rcases ih h with ⟨index, item, hitem, hread⟩ | hordered
          · exact Or.inl ⟨index, item, List.mem_cons_of_mem _ hitem, hread⟩
          · exact Or.inr hordered

theorem loadFrom_map (f : β → α) (index : Nat) (items : List β) :
    loadFrom read t index (items.map f) =
      loadFrom (fun index item => read index (f item)) t index items := by
  induction items generalizing t index with
  | nil => rfl
  | cons item rest ih =>
      rw [List.map_cons, loadFrom, loadFrom]
      cases read index (f item) with
      | error error => rfl
      | ok edge =>
          dsimp only
          cases t.extend index edge with
          | error error => rfl
          | ok longer => exact ih (index + 1)

/-! ## Ends -/

/-- The two ends of an edge. -/
def ends (e : Edge) : Int × Int :=
  (e.source, e.dest)

/-- A number that is a code offset. -/
def IsOffset (n : Int) : Prop :=
  0 ≤ n ∧ n < 2 ^ 24

instance (n : Int) : Decidable (IsOffset n) :=
  inferInstanceAs (Decidable (_ ∧ _))

theorem isOffset_iff {n : Int} : IsOffset n ↔ 0 ≤ n ∧ n ≤ maxOffset := by
  unfold IsOffset maxOffset
  omega

theorem offset_int {n : Int} (field : String) (h : IsOffset n) :
    ∃ o : Offset, (Value.int n).offset field = .ok o ∧ (o.val : Int) = n := by
  have hrange := isOffset_iff.1 h
  refine ⟨⟨n.toNat, by omega⟩, ?_, by simp [hrange.1]⟩
  show (if h : 0 ≤ n ∧ n ≤ maxOffset then _ else _) = _
  rw [dif_pos hrange]

theorem not_offset_int {n : Int} (field : String) (h : ¬ IsOffset n) :
    ∃ error, (Value.int n).offset field = .error error := by
  rw [isOffset_iff] at h
  refine ⟨⟨field, .outOfRange⟩, ?_⟩
  show (if h : 0 ≤ n ∧ n ≤ maxOffset then _ else _) = _
  rw [dif_neg h]

theorem edgeOf_int (index : Nat) {p : Int × Int} (h : IsOffset p.1 ∧ IsOffset p.2) :
    ∃ e, edgeOf index (.int p.1) (.int p.2) = .ok e ∧ ends e = p := by
  obtain ⟨s, hs, hsource⟩ := offset_int "source" h.1
  obtain ⟨d, hd, hdest⟩ := offset_int "dest" h.2
  refine ⟨⟨s.val, d.val, s.property, d.property⟩, ?_, Prod.ext hsource hdest⟩
  rw [edgeOf, hs]
  dsimp only
  rw [hd]

theorem ends_injective {e e' : Edge} (h : ends e = ends e') : e = e' := by
  obtain ⟨source, dest, hsource, hdest⟩ := e
  obtain ⟨source', dest', hsource', hdest'⟩ := e'
  obtain ⟨hs, hd⟩ := Prod.mk.inj h
  obtain rfl := Int.ofNat_inj.1 hs
  obtain rfl := Int.ofNat_inj.1 hd
  rfl

theorem isOffset_ends (e : Edge) : IsOffset (ends e).1 ∧ IsOffset (ends e).2 := by
  constructor
  · exact isOffset_iff.2 ⟨Int.natCast_nonneg e.source, Int.ofNat_le.2 e.source_le⟩
  · exact isOffset_iff.2 ⟨Int.natCast_nonneg e.dest, Int.ofNat_le.2 e.dest_le⟩

theorem edgeOf_eq_ok_iff (index : Nat) (p : Int × Int) (e : Edge) :
    edgeOf index (.int p.1) (.int p.2) = .ok e ↔ ends e = p := by
  constructor
  · intro h
    by_cases hrange : IsOffset p.1 ∧ IsOffset p.2
    · obtain ⟨e', he', hends⟩ := edgeOf_int index hrange
      rw [he'] at h
      cases h
      exact hends
    · -- an end out of range is refused, whichever it is
      exfalso
      unfold edgeOf at h
      by_cases hsource : IsOffset p.1
      · obtain ⟨s, hs, -⟩ := offset_int "source" hsource
        obtain ⟨error, hd⟩ := not_offset_int "dest" (fun hd => hrange ⟨hsource, hd⟩)
        rw [hs, hd] at h
        cases h
      · obtain ⟨error, hs⟩ := not_offset_int "source" hsource
        rw [hs] at h
        cases h
  · rintro rfl
    obtain ⟨e', he', hends⟩ := edgeOf_int index (isOffset_ends e)
    rw [he', ends_injective hends]

/-- The loader of pairs of integers takes exactly the ends of a table. -/
theorem load_eq_ok_iff {pairs : List (Int × Int)} :
    loadFrom (fun index p => edgeOf index (.int p.1) (.int p.2)) empty 0 pairs = .ok t ↔
      t.edges.toList.map ends = pairs := by
  rw [loadFrom_eq_ok_iff edgeOf_eq_ok_iff]
  constructor
  · rintro ⟨es, hedges, hmap⟩
    rw [hedges]
    exact hmap
  · intro h
    exact ⟨t.edges.toList, rfl, h⟩

/-- Pairs ascend by their first component, and by the second where the first is the same. -/
abbrev Ascends : Int × Int → Int × Int → Prop :=
  Prod.Lex (· < ·) (· < ·)

theorem before_iff {e e' : Edge} : e.Before e' ↔ Ascends (ends e) (ends e') := by
  rw [Ascends, Prod.lex_def]
  unfold Edge.Before ends
  omega

/-- The ascending lists of pairs of offsets are the ends of tables. -/
theorem exists_ends_iff {pairs : List (Int × Int)} :
    (∃ t : JumpTable, t.edges.toList.map ends = pairs) ↔
      (∀ p ∈ pairs, IsOffset p.1 ∧ IsOffset p.2) ∧ pairs.Pairwise Ascends := by
  constructor
  · rintro ⟨t, rfl⟩
    constructor
    · intro p hp
      obtain ⟨e, -, rfl⟩ := List.mem_map.1 hp
      exact isOffset_ends e
    · rw [List.pairwise_map]
      exact t.sorted.imp before_iff.1
  · rintro ⟨hrange, hsorted⟩
    have hedges : ∃ es : List Edge, es.map ends = pairs := by
      induction pairs with
      | nil => exact ⟨[], rfl⟩
      | cons p rest ih =>
          obtain ⟨es, hes⟩ := ih (fun q hq => hrange q (List.mem_cons_of_mem _ hq))
            (List.pairwise_cons.1 hsorted).2
          obtain ⟨e, -, he⟩ := edgeOf_int 0 (hrange p List.mem_cons_self)
          exact ⟨e :: es, by rw [List.map_cons, he, hes]⟩
    obtain ⟨es, rfl⟩ := hedges
    rw [List.pairwise_map] at hsorted
    exact ⟨⟨es.toArray, hsorted.imp before_iff.2⟩, rfl⟩

/-! ## Wire bytes -/

theorem pairsOfBytes_toBytes (e : Edge) (rest : List UInt8) :
    pairsOfBytes (e.toBytes ++ rest) = (e.source, e.dest) :: pairsOfBytes rest := by
  have hwidth : (256 : Nat) ^ offsetWidth = maxOffset + 1 := by decide
  have hsource := Bytes.BigEndian.decode_encode offsetWidth e.source
    (by rw [hwidth]; exact Nat.lt_succ_of_le e.source_le)
  have hdest := Bytes.BigEndian.decode_encode offsetWidth e.dest
    (by rw [hwidth]; exact Nat.lt_succ_of_le e.dest_le)
  obtain ⟨a, b, c, habc⟩ : ∃ a b c, Bytes.BigEndian.encode offsetWidth e.source = [a, b, c] :=
    ⟨_, _, _, rfl⟩
  obtain ⟨x, y, z, hxyz⟩ : ∃ x y z, Bytes.BigEndian.encode offsetWidth e.dest = [x, y, z] :=
    ⟨_, _, _, rfl⟩
  rw [habc] at hsource
  rw [hxyz] at hdest
  rw [Edge.toBytes, habc, hxyz, ← hsource, ← hdest]
  rfl

theorem length_lt_edgeSize {bs : List UInt8}
    (h : ∀ a b c x y z rest, bs = a :: b :: c :: x :: y :: z :: rest → False) :
    bs.length < edgeSize := by
  rcases bs with _ | ⟨a, _ | ⟨b, _ | ⟨c, _ | ⟨x, _ | ⟨y, _ | ⟨z, rest⟩⟩⟩⟩⟩⟩
  case cons.cons.cons.cons.cons.cons => exact (h a b c x y z rest rfl).elim
  all_goals simp [edgeSize, offsetWidth]

/-- Bytes are those of a list of edges exactly if they are whole records that hold their ends. -/
theorem flatMap_toBytes_eq_iff {es : List Edge} {bs : List UInt8} :
    es.flatMap Edge.toBytes = bs ↔
      bs.length % edgeSize = 0 ∧ es.map (fun e => (e.source, e.dest)) = pairsOfBytes bs := by
  constructor
  · rintro rfl
    induction es with
    | nil => exact ⟨rfl, rfl⟩
    | cons e rest ih =>
        obtain ⟨hlength, hpairs⟩ := ih
        rw [List.flatMap_cons]
        constructor
        · have hsize : e.toBytes.length = edgeSize := by
            simp [Edge.toBytes, Bytes.BigEndian.length_encode, edgeSize, Nat.two_mul]
          rw [List.length_append, hsize, Nat.add_mod_left, hlength]
        · rw [List.map_cons, pairsOfBytes_toBytes, hpairs]
  · rintro ⟨hlength, hpairs⟩
    fun_induction pairsOfBytes bs generalizing es with
    | case1 a b c x y z rest ih =>
        obtain ⟨e, es, rfl, he, hes⟩ := List.map_eq_cons_iff.1 hpairs
        obtain ⟨hsource, hdest⟩ := Prod.mk.inj he
        have hrest : rest.length % edgeSize = 0 := by
          simp only [List.length_cons, edgeSize, offsetWidth] at hlength ⊢
          omega
        rw [List.flatMap_cons, ih hrest hes, Edge.toBytes, hsource, hdest]
        have habc := Bytes.BigEndian.encode_decode [a, b, c]
        have hxyz := Bytes.BigEndian.encode_decode [x, y, z]
        change Bytes.BigEndian.encode offsetWidth _ = _ at habc hxyz
        rw [habc, hxyz]
        rfl
    | case2 bs hshort =>
        rw [Nat.mod_eq_of_lt (length_lt_edgeSize hshort)] at hlength
        rw [List.map_eq_nil_iff.1 hpairs, List.eq_nil_of_length_eq_zero hlength]
        rfl

theorem map_ends (t : JumpTable) :
    t.edges.toList.map ends = t.toPairs.map (fun p => ((p.1 : Int), (p.2 : Int))) := by
  rw [toPairs, List.map_map]
  rfl

theorem ofPairs_eq (pairs : List (Nat × Nat)) :
    ofPairs pairs = loadFrom (fun index p => edgeOf index (.int p.1) (.int p.2)) empty 0
      (pairs.map (fun p => ((p.1 : Int), (p.2 : Int)))) := by
  rw [loadFrom_map]
  rfl

theorem ofPairs_eq_ok_iff {pairs : List (Nat × Nat)} : ofPairs pairs = .ok t ↔ t.toPairs = pairs := by
  rw [ofPairs_eq, load_eq_ok_iff, map_ends]
  refine List.map_inj_right ?_
  intro p q h
  obtain ⟨hsource, hdest⟩ := Prod.mk.inj h
  exact Prod.ext (Int.ofNat_inj.1 hsource) (Int.ofNat_inj.1 hdest)

theorem decode_eq_ok_iff {bs : List UInt8} : decode bs = .ok t ↔ t.encode = bs := by
  rw [encode, flatMap_toBytes_eq_iff, decode]
  split
  · rename_i hlength
    rw [ofPairs_eq_ok_iff]
    exact ⟨fun h => ⟨hlength, h⟩, fun h => h.2⟩
  · rename_i hlength
    constructor
    · intro h
      cases h
    · rintro ⟨h, -⟩
      exact absurd h hlength

/-- The records of wire bytes, each as one number. -/
def wireRecords (bs : List UInt8) : List Nat :=
  (List.range (bs.length / edgeSize)).map (fun i =>
    Bytes.BigEndian.decode ((bs.drop (edgeSize * i)).take edgeSize))

theorem wireRecords_eq (bs : List UInt8) :
    wireRecords bs = (pairsOfBytes bs).map (fun p => p.1 * 2 ^ 24 + p.2) := by
  fun_induction pairsOfBytes bs with
  | case1 a b c x y z rest ih =>
      have hcount : (a :: b :: c :: x :: y :: z :: rest).length / edgeSize =
          rest.length / edgeSize + 1 := by
        simp only [List.length_cons, edgeSize, offsetWidth]
        omega
      have hshift : (256 : Nat) ^ [x, y, z].length = 2 ^ 24 := by simp
      rw [wireRecords, hcount, List.range_succ_eq_map, List.map_cons, List.map_map, List.map_cons,
        ← ih]
      refine congrArg₂ List.cons ?_ ?_
      · rw [← hshift, ← Bytes.BigEndian.decode_append]
        rfl
      · exact List.map_congr_left (fun i _ => rfl)
  | case2 bs hshort =>
      rw [wireRecords, Nat.div_eq_of_lt (length_lt_edgeSize hshort)]
      rfl

theorem pairsOfBytes_lt {bs : List UInt8} {p : Nat × Nat} (h : p ∈ pairsOfBytes bs) :
    p.1 < 2 ^ 24 ∧ p.2 < 2 ^ 24 := by
  fun_induction pairsOfBytes bs with
  | case1 a b c x y z rest ih =>
      rcases List.mem_cons.1 h with rfl | h
      · have hweight : (256 : Nat) ^ 3 = 2 ^ 24 := by simp
        have habc : Bytes.BigEndian.decode [a, b, c] < 256 ^ 3 := Bytes.BigEndian.decode_lt _
        have hxyz : Bytes.BigEndian.decode [x, y, z] < 256 ^ 3 := Bytes.BigEndian.decode_lt _
        rw [hweight] at habc hxyz
        exact ⟨habc, hxyz⟩
      · exact ih h
  | case2 bs hshort => cases h

/-- Wire bytes are a table exactly if they are whole records in ascending order. -/
theorem exists_decode_iff {bs : List UInt8} :
    (∃ t, decode bs = .ok t) ↔
      bs.length % edgeSize = 0 ∧ (wireRecords bs).Pairwise (· < ·) := by
  by_cases hlength : bs.length % edgeSize = 0
  · have hrange : ∀ p ∈ (pairsOfBytes bs).map (fun p => ((p.1 : Int), (p.2 : Int))),
        IsOffset p.1 ∧ IsOffset p.2 := by
      intro p hp
      obtain ⟨q, hq, rfl⟩ := List.mem_map.1 hp
      have hlt := pairsOfBytes_lt hq
      unfold IsOffset
      dsimp only
      omega
    have hloads : (∃ t, decode bs = .ok t) ↔
        ((pairsOfBytes bs).map (fun p => ((p.1 : Int), (p.2 : Int)))).Pairwise Ascends := by
      simp only [decode, if_pos hlength, ofPairs_eq, load_eq_ok_iff]
      rw [exists_ends_iff]
      exact and_iff_right hrange
    rw [hloads, wireRecords_eq, List.pairwise_map, List.pairwise_map, and_iff_right hlength]
    -- the second ends are below the weight of the first ones
    refine List.Pairwise.iff_of_mem (fun {p q} hp hq => ?_)
    have hp := pairsOfBytes_lt hp
    have hq := pairsOfBytes_lt hq
    rw [Ascends, Prod.lex_def]
    dsimp only
    omega
  · refine iff_of_false ?_ (fun h => hlength h.1)
    rintro ⟨t, ht⟩
    rw [decode, if_neg hlength] at ht
    cases ht

/-- Wire bytes that are no table are not whole records, or out of order. -/
theorem decode_error {bs : List UInt8} {error : TableError} (h : decode bs = .error error) :
    (bs.length % edgeSize ≠ 0 ∧ error = .wireLength bs.length) ∨ Misordered error := by
  unfold decode at h
  split at h
  · rw [ofPairs] at h
    rcases loadFrom_error h with ⟨index, p, hp, hread⟩ | hordered
    · -- three bytes are always an offset
      exfalso
      have hlt := pairsOfBytes_lt hp
      have hrange : IsOffset (p.1 : Int) ∧ IsOffset (p.2 : Int) := by
        unfold IsOffset
        omega
      obtain ⟨e, he, -⟩ := edgeOf_int index (p := ((p.1 : Int), (p.2 : Int))) hrange
      change edgeOf index (.int p.1) (.int p.2) = .error error at hread
      rw [he] at hread
      cases hread
    · exact Or.inr hordered
  · rename_i hlength
    cases h
    exact Or.inl ⟨hlength, rfl⟩

/-! ## Documents -/

/-- The document that names every edge by an object. -/
def objectsValue (t : JumpTable) : Value :=
  .list (t.edges.toList.map (fun e =>
    .record [("source", .nat e.source), ("dest", .nat e.dest)]))

/-- One of two shapes is enough, and both are too many. -/
theorem accepts_oneOf_pair (s t : Schema) (v : Value) :
    (Schema.oneOf [s, t]).accepts v = (s.accepts v ^^ t.accepts v) := by
  rw [Schema.accepts, Schema.countAccepting, Schema.countAccepting, Schema.countAccepting]
  cases s.accepts v <;> cases t.accepts v <;> rfl

/-- A list is an item exactly if it is a pair of offsets. -/
theorem accepts_itemSchema_list {given : List Value} :
    itemSchema.accepts (.list given) = true ↔
      ∃ source dest, given = [source, dest] ∧
        offsetSchema.accepts source = true ∧ offsetSchema.accepts dest = true := by
  have hpair : itemSchema.accepts (.list given) = pairSchema.accepts (.list given) := by
    rw [itemSchema, accepts_oneOf_pair]
    exact Bool.xor_false _
  rw [hpair, pairSchema, Schema.accepts]
  rcases given with _ | ⟨source, _ | ⟨dest, _ | ⟨more, rest⟩⟩⟩
  case cons.cons.nil =>
    constructor
    · intro h
      simp only [Schema.acceptsFirst, Bool.and_true, Bool.and_eq_true] at h
      exact ⟨source, dest, rfl, h.2⟩
    · rintro ⟨source', dest', hgiven, haccepts⟩
      cases hgiven
      simp [Schema.acceptsFirst, haccepts]
  all_goals simp

/-- A map is an item exactly if it has the two ends and nothing else. -/
theorem accepts_itemSchema_map {entries : List (Value × Value)} :
    itemSchema.accepts (.map entries) = true ↔
      (∀ entry ∈ entries, entry.1 = .text "source" ∨ entry.1 = .text "dest") ∧
      ∃ source dest, (Value.map entries).get? "source" = some source ∧
        (Value.map entries).get? "dest" = some dest ∧
          offsetSchema.accepts source = true ∧ offsetSchema.accepts dest = true := by
  have hnames : ∀ v : Value,
      Schema.names [("source", offsetSchema), ("dest", offsetSchema)] v = true ↔
        v = .text "source" ∨ v = .text "dest" := by
    intro v
    cases v <;> simp [Schema.names]
  have hrecord : itemSchema.accepts (.map entries) = recordSchema.accepts (.map entries) := by
    rw [itemSchema, accepts_oneOf_pair]
    exact Bool.false_xor _
  rw [hrecord, recordSchema, Schema.accepts]
  cases hsource : (Value.map entries).get? "source" with
  | none => simp [hsource]
  | some source =>
      cases hdest : (Value.map entries).get? "dest" with
      | none => simp [hdest]
      | some dest => simp [Schema.acceptsEntries, hsource, hdest, hnames]

theorem accepts_documentSchema {items : List Value} :
    documentSchema.accepts (.list items) = true ↔
      ∀ item ∈ items, itemSchema.accepts item = true := by
  rw [documentSchema, Schema.accepts, List.all_eq_true]

/-- Nothing is wrong with a list exactly if it has the shape of a document. -/
theorem problemsFrom_eq_nil_iff (index : Nat) {items : List Value} :
    problemsFrom index items = [] ↔ documentSchema.accepts (.list items) = true := by
  rw [accepts_documentSchema]
  induction items generalizing index with
  | nil => simp [problemsFrom]
  | cons item rest ih =>
      rw [problemsFrom, List.forall_mem_cons, ← ih (index + 1)]
      split
      · rename_i haccepts
        exact (and_iff_right haccepts).symm
      · rename_i hrefused
        exact iff_of_false (List.cons_ne_nil _ _) (fun h => hrefused h.1)

/-- The pair of the ends that an item names. -/
def pairOf (item : Value) : Value :=
  .list [(endsOf item).1, (endsOf item).2]

/-- A document of the right shape is read as the pairs that its items name. -/
theorem ofDocument_of_accepts {items : List Value}
    (h : documentSchema.accepts (.list items) = true) :
    ofDocument (.list items) = ofItems (items.map pairOf) := by
  rw [ofDocument, (problemsFrom_eq_nil_iff 0).2 h, ofItems, loadFrom_map]
  dsimp only
  rw [loadFrom_map]
  rfl

/-- A refusal of the shape of a document. -/
def IsShapeError (error : TableError) : Prop :=
  error = .unprintable ∨ ∃ problems, error = .document problems

/-- A document of another shape is refused for its shape. -/
theorem ofDocument_of_refused {v : Value} (h : documentSchema.accepts v = false) :
    ∃ error, ofDocument v = .error error ∧ IsShapeError error := by
  have hnamed : ∀ (printable : Bool) problems,
      IsShapeError (if printable then .document problems else .unprintable) := by
    intro printable problems
    cases printable with
    | false => exact .inl rfl
    | true => exact .inr ⟨problems, rfl⟩
  cases v with
  | list items =>
      cases hproblems : problemsFrom 0 items with
      | nil =>
          rw [(problemsFrom_eq_nil_iff 0).1 hproblems] at h
          cases h
      | cons problem rest =>
          rw [ofDocument, hproblems]
          exact ⟨_, rfl, hnamed _ _⟩
  | _ => exact ⟨_, rfl, hnamed _ _⟩

theorem accepts_offsetSchema {n : Nat} (h : n ≤ maxOffset) :
    offsetSchema.accepts (.nat n) = true := by
  simp [offsetSchema, Schema.accepts, Value.integral?, Value.nat, h]

/-- A pair of integers as data. -/
def pairItem (p : Int × Int) : Value :=
  .list [.int p.1, .int p.2]

theorem ofItems_eq_ok_iff {pairs : List (Int × Int)} :
    ofItems (pairs.map pairItem) = .ok t ↔ t.edges.toList.map ends = pairs := by
  rw [ofItems, loadFrom_map]
  exact load_eq_ok_iff

/-- A document that names the edges of a table in their order, each in a valid form, is read as the
table. -/
theorem ofDocument_map {shown : Edge → Value}
    (haccepts : ∀ e, itemSchema.accepts (shown e) = true)
    (hends : ∀ e, endsOf (shown e) = (.nat e.source, .nat e.dest)) (t : JumpTable) :
    ofDocument (.list (t.edges.toList.map shown)) = .ok t := by
  have hshape : documentSchema.accepts (.list (t.edges.toList.map shown)) = true := by
    rw [accepts_documentSchema]
    intro item hitem
    obtain ⟨e, -, rfl⟩ := List.mem_map.1 hitem
    exact haccepts e
  have hpairs : pairOf ∘ shown = pairItem ∘ ends := by
    funext e
    simp only [Function.comp_apply, pairOf, hends]
    rfl
  rw [ofDocument_of_accepts hshape, List.map_map, hpairs, ← List.map_map]
  exact ofItems_eq_ok_iff.2 rfl

theorem pairsValue_eq (t : JumpTable) :
    t.pairsValue = .list (t.edges.toList.map (fun e => .list [.nat e.source, .nat e.dest])) := by
  rw [pairsValue, toPairs, List.map_map]
  rfl

theorem ofDocument_pairsValue (t : JumpTable) : ofDocument t.pairsValue = .ok t := by
  rw [pairsValue_eq]
  refine ofDocument_map (fun e => accepts_itemSchema_list.2 ?_) (fun e => rfl) t
  exact ⟨_, _, rfl, accepts_offsetSchema e.source_le, accepts_offsetSchema e.dest_le⟩

theorem ofDocument_objectsValue (t : JumpTable) : ofDocument t.objectsValue = .ok t := by
  refine ofDocument_map (fun e => accepts_itemSchema_map.2 ⟨by simp, ?_⟩) (fun e => rfl) t
  exact ⟨_, _, rfl, rfl, accepts_offsetSchema e.source_le, accepts_offsetSchema e.dest_le⟩

/-! ## All formats -/

/-- Pairs are a table exactly if they are offsets in ascending order, and stay as they are.  Every
format of a table is read as the table.  A document is read as the pairs that it names if it has the
shape of one, and is refused for its shape otherwise.  Wire bytes are a table exactly if they are
whole records in ascending order; they are then the wire bytes of that table, and else are refused
for their length or their order. -/
theorem formats_agree :
    (∀ pairs : List (Int × Int),
      ((∃ t, ofItems (pairs.map pairItem) = .ok t) ↔
        (∀ p ∈ pairs, IsOffset p.1 ∧ IsOffset p.2) ∧ pairs.Pairwise Ascends) ∧
      ∀ t, ofItems (pairs.map pairItem) = .ok t → t.pairsValue = .list (pairs.map pairItem)) ∧
    (∀ t : JumpTable, decode t.encode = .ok t ∧ ofDocument t.pairsValue = .ok t ∧
      ofDocument t.objectsValue = .ok t) ∧
    (∀ items : List Value, documentSchema.accepts (.list items) = true →
      ofDocument (.list items) = ofItems (items.map pairOf)) ∧
    (∀ v : Value, documentSchema.accepts v = false →
      ∃ error, ofDocument v = .error error ∧ IsShapeError error) ∧
    ∀ bs : List UInt8,
      ((∃ t, decode bs = .ok t) ↔
        bs.length % 6 = 0 ∧ (wireRecords bs).Pairwise (· < ·)) ∧
      (∀ t, decode bs = .ok t → t.encode = bs) ∧
      ∀ error, decode bs = .error error →
        (bs.length % 6 ≠ 0 ∧ error = .wireLength bs.length) ∨ Misordered error := by
  refine ⟨fun pairs => ⟨?_, ?_⟩, fun t => ⟨?_, ?_, ?_⟩, fun items => ofDocument_of_accepts,
    fun v => ofDocument_of_refused, fun bs => ⟨?_, ?_, ?_⟩⟩
  · simp only [ofItems_eq_ok_iff]
    exact exists_ends_iff
  · intro t ht
    rw [← ofItems_eq_ok_iff.1 ht, pairsValue_eq, List.map_map]
    rfl
  · exact decode_eq_ok_iff.2 rfl
  · exact ofDocument_pairsValue t
  · exact ofDocument_objectsValue t
  · exact exists_decode_iff
  · exact fun t ht => decode_eq_ok_iff.1 ht
  · exact fun error herror => decode_error herror

theorem formats_agree_shared_source :
    (∃ t, ofItems ([(1, 2), (1, 3), (9, 0)].map pairItem) = .ok t ∧
      t.pairsValue = .list ([(1, 2), (1, 3), (9, 0)].map pairItem)) ∧
    (∃ t, decode [0, 0, 1, 0, 0, 2, 0, 0, 1, 0, 0, 3] = .ok t ∧
      t.encode = [0, 0, 1, 0, 0, 2, 0, 0, 1, 0, 0, 3]) ∧
    ∃ error, decode [0, 0, 1, 0, 0, 2, 0, 0, 1, 0, 0, 2] = .error error ∧ Misordered error := by
  obtain ⟨hpairs, -, -, -, hbytes⟩ := formats_agree
  refine ⟨?_, ?_, ?_⟩
  · obtain ⟨hloads, hkept⟩ := hpairs [(1, 2), (1, 3), (9, 0)]
    obtain ⟨t, ht⟩ := hloads.2 (by decide)
    exact ⟨t, ht, hkept t ht⟩
  · obtain ⟨hloads, hkept, -⟩ := hbytes [0, 0, 1, 0, 0, 2, 0, 0, 1, 0, 0, 3]
    obtain ⟨t, ht⟩ := hloads.2 (by decide)
    exact ⟨t, ht, hkept t ht⟩
  · obtain ⟨hloads, -, hrefused⟩ := hbytes [0, 0, 1, 0, 0, 2, 0, 0, 1, 0, 0, 2]
    cases hdecode : decode [0, 0, 1, 0, 0, 2, 0, 0, 1, 0, 0, 2] with
    | ok t => exact absurd (hloads.1 ⟨t, hdecode⟩) (by decide)
    | error error => exact ⟨error, rfl, (hrefused error hdecode).resolve_left (fun h => h.1 rfl)⟩

end FlowCheck.JumpTable
