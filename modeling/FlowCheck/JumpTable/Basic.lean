import FlowCheck.Bytes.Immediate
import FlowCheck.Input

/-!
# Jump tables

The declared edges of computed jumps.  A table is a strictly ascending sequence of edges; a loader
hands the edges over in that order, and anything else is refused rather than sorted.  On the wire
an edge takes six bytes, three for each end.
-/

namespace FlowCheck

/-- A declared edge between two code offsets. -/
structure Edge where
  /-- Where the jump stands. -/
  source : Nat
  /-- Where it may land. -/
  dest : Nat
  /-- The source is an offset. -/
  source_le : source ≤ maxOffset
  /-- The destination is an offset. -/
  dest_le : dest ≤ maxOffset
  deriving DecidableEq

namespace Edge

/-- Edges are ordered by source, then by destination. -/
def Before (a b : Edge) : Prop :=
  a.source < b.source ∨ (a.source = b.source ∧ a.dest < b.dest)

instance (a b : Edge) : Decidable (Before a b) :=
  inferInstanceAs (Decidable (_ ∨ _))

theorem Before.trans {a b c : Edge} (hab : Before a b) (hbc : Before b c) : Before a c := by
  unfold Before at *
  omega

/-- An edge as it is written in messages. -/
def text (e : Edge) : String :=
  s!"({e.source}, {e.dest})"

/-- The six bytes of an edge. -/
def toBytes (e : Edge) : List UInt8 :=
  Bytes.BigEndian.encode offsetWidth e.source ++ Bytes.BigEndian.encode offsetWidth e.dest

end Edge

/-- How many bytes an edge takes on the wire. -/
def edgeSize : Nat := 2 * offsetWidth

/-- Why a table is refused. -/
inductive TableError where
  /-- An entry that is not a pair. -/
  | notPair (index : Nat)
  /-- An entry with an end that is no offset. -/
  | badOffset (index : Nat) (error : InputError)
  /-- An entry equal to the one before it. -/
  | duplicate (index : Nat) (edge previous : Edge)
  /-- An entry that belongs before the one before it. -/
  | unsorted (index : Nat) (edge previous : Edge)
  /-- Wire bytes that are not whole edges. -/
  | wireLength (length : Nat)
  /-- A document of another shape, with what is wrong in it. -/
  | document (problems : List String)
  /-- A document of another shape, with a number too long to be named in the message. -/
  | unprintable

namespace TableError

/-- The wording of a refusal; of a document only the first five problems are named. -/
def message : TableError → String
  | notPair index => s!"jump table entry {index} is not a (source, dest) pair"
  | badOffset index error => s!"jump table entry {index}: {error.message}"
  | duplicate index edge previous =>
      s!"duplicate jump table entry {index}: {edge.text} after {previous.text}"
  | unsorted index edge previous =>
      s!"unsorted jump table entry {index}: {edge.text} after {previous.text}"
  | wireLength length => s!"jump table length {length} is not a multiple of {edgeSize}"
  | document problems => "invalid jump table document: " ++ "; ".intercalate (problems.take 5)
  | unprintable => Text.Numeral.printRefusal

end TableError

/-- A strictly ascending table of edges. -/
structure JumpTable where
  /-- The edges. -/
  edges : Array Edge
  /-- They ascend strictly. -/
  sorted : edges.toList.Pairwise Edge.Before

namespace JumpTable

/-- The table without edges. -/
def empty : JumpTable where
  edges := #[]
  sorted := List.Pairwise.nil

/-- The number of edges. -/
def size (t : JumpTable) : Nat :=
  t.edges.size

/-- In an ascending list every element is the last one or stands before it. -/
theorem eq_or_before_of_getLast? {es : List Edge} (hs : es.Pairwise Edge.Before) {last : Edge}
    (hl : es.getLast? = some last) : ∀ e ∈ es, e = last ∨ e.Before last := by
  obtain ⟨front, rfl⟩ := List.getLast?_eq_some_iff.1 hl
  intro e he
  rcases List.mem_append.1 he with h | h
  · exact Or.inr ((List.pairwise_append.1 hs).2.2 e h last (by simp))
  · exact Or.inl (by simpa using h)

/-- Adding an edge behind the last one keeps a table ascending. -/
theorem sorted_push (t : JumpTable) (e : Edge)
    (h : ∀ last, t.edges.back? = some last → last.Before e) :
    (t.edges.push e).toList.Pairwise Edge.Before := by
  rw [Array.toList_push, List.pairwise_append]
  refine ⟨t.sorted, by simp, ?_⟩
  intro a ha b hb
  obtain rfl : b = e := by simpa using hb
  cases hl : t.edges.toList.getLast? with
  | none => simp [List.getLast?_eq_none_iff.1 hl] at ha
  | some last =>
      have hlast := h last (by simpa using hl)
      rcases eq_or_before_of_getLast? t.sorted hl a ha with rfl | hbefore
      · exact hlast
      · exact hbefore.trans hlast

/-- Adds the edge read at an index, if it stands behind the last one. -/
def extend (t : JumpTable) (index : Nat) (e : Edge) : Except TableError JumpTable :=
  match h : t.edges.back? with
  | none => .ok ⟨t.edges.push e, t.sorted_push e (by simp [h])⟩
  | some last =>
      if hb : last.Before e then
        .ok ⟨t.edges.push e, t.sorted_push e (by
          intro x hx
          obtain rfl : last = x := by simpa [h] using hx
          exact hb)⟩
      else if e = last then .error (.duplicate index e last)
      else .error (.unsorted index e last)

/-- Reads items one by one and adds their edges. -/
def loadFrom (read : Nat → α → Except TableError Edge) (t : JumpTable) (index : Nat) :
    List α → Except TableError JumpTable
  | [] => .ok t
  | item :: rest =>
      match read index item with
      | .error e => .error e
      | .ok edge =>
          match t.extend index edge with
          | .error e => .error e
          | .ok t' => loadFrom read t' (index + 1) rest

/-- The edge between two pieces of data. -/
def edgeOf (index : Nat) (source dest : Value) : Except TableError Edge :=
  match source.offset "source" with
  | .error e => .error (.badOffset index e)
  | .ok s =>
      match dest.offset "dest" with
      | .error e => .error (.badOffset index e)
      | .ok d => .ok ⟨s.val, d.val, s.property, d.property⟩

/-- The edge of an item: a pair, a text of two characters, or a map of two keys. -/
def edgeOfItem (index : Nat) : Value → Except TableError Edge
  | .list [source, dest] => edgeOf index source dest
  | .map [(source, _), (dest, _)] => edgeOf index source dest
  | .text s =>
      match s.toList with
      | [a, b] => edgeOf index (.text (String.ofList [a])) (.text (String.ofList [b]))
      | _ => .error (.notPair index)
  | _ => .error (.notPair index)

/-- The table of a list of items. -/
def ofItems (items : List Value) : Except TableError JumpTable :=
  loadFrom edgeOfItem empty 0 items

/-- The table of a list of pairs of numbers. -/
def ofPairs (pairs : List (Nat × Nat)) : Except TableError JumpTable :=
  loadFrom (fun index (s, d) => edgeOf index (.nat s) (.nat d)) empty 0 pairs

/-- The pairs of numbers of wire bytes. -/
def pairsOfBytes : List UInt8 → List (Nat × Nat)
  | a :: b :: c :: d :: e :: f :: rest =>
      (Bytes.BigEndian.decode [a, b, c], Bytes.BigEndian.decode [d, e, f]) :: pairsOfBytes rest
  | _ => []

/-- The table of wire bytes. -/
def decode (bs : List UInt8) : Except TableError JumpTable :=
  if bs.length % edgeSize = 0 then ofPairs (pairsOfBytes bs) else .error (.wireLength bs.length)

/-- The wire bytes of a table. -/
def encode (t : JumpTable) : List UInt8 :=
  t.edges.toList.flatMap Edge.toBytes

/-- The edges as pairs of numbers. -/
def toPairs (t : JumpTable) : List (Nat × Nat) :=
  t.edges.toList.map (fun e => (e.source, e.dest))

/-- The table in one line. -/
def summary (t : JumpTable) : String :=
  s!"JumpTable({t.size} entries)"

end JumpTable

end FlowCheck
