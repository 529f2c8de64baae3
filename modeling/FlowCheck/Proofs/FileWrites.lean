import FlowCheck.Files
import Mathlib

/-!
# Writing and reading files

A file that was written is read back at the same path.  Writing changes what stands at one place and
nothing else, and the directories on the way to that place stay directories.
-/

namespace FlowCheck

namespace FilePath

theorem climb_append (base : PathBase) (behind xs ys : List String) :
    climb base behind (xs ++ ys) = climb base (climb base behind xs) ys := by
  induction xs generalizing behind with
  | nil => rfl
  | cons n rest ih =>
      simp only [List.cons_append, climb]
      split
      · split <;> exact ih _
      · exact ih _

theorem climb_name (base : PathBase) (behind : List String) {n : String} (h : n ≠ "..") :
    climb base behind [n] = behind ++ [n] := by
  simp [climb, h]

/-- Two slashes at the front lead where one does. -/
theorem climb_place_base (p : FilePath) (behind names : List String) :
    climb p.place.base behind names = climb p.base behind names := by
  by_cases hbase : p.base = .doubleRoot
  · rw [place, hbase]
    show climb .root behind names = climb .doubleRoot behind names
    induction names generalizing behind with
    | nil => rfl
    | cons n rest ih =>
        simp only [climb, ih]
        rfl
  · simp [place, hbase]

end FilePath

namespace Files

variable {fs : Files} {p q : FilePath} {node : FileNode} {base : PathBase}
  {behind names rest front : List String} {n : String} {bytes : Array UInt8}

/-! ## What stands at a place -/

theorem lookup_entry (q r : FilePath) (node : FileNode) (rest : List (FilePath × FileNode)) :
    List.lookup q ((r, node) :: rest) = if q = r then some node else rest.lookup q := by
  rw [List.lookup_cons]
  by_cases h : q = r
  · rw [if_pos h, beq_iff_eq.2 h]
  · rw [if_neg h, beq_false_of_ne h]

theorem any_key_eq_isSome (entries : List (FilePath × FileNode)) (q : FilePath) :
    entries.any (fun (r, _) => r == q) = (entries.lookup q).isSome := by
  induction entries with
  | nil => rfl
  | cons e rest ih =>
      obtain ⟨r, old⟩ := e
      rw [List.any_cons, lookup_entry, ih]
      by_cases hr : q = r
      · simp [hr]
      · simp [hr, beq_false_of_ne (Ne.symm hr)]

theorem lookup_replace (entries : List (FilePath × FileNode)) (p q : FilePath) (node : FileNode) :
    (entries.map (fun (r, old) => if r == p then (r, node) else (r, old))).lookup q =
      if q = p then (entries.lookup p).map (fun _ => node) else entries.lookup q := by
  induction entries with
  | nil => simp
  | cons e rest ih =>
      obtain ⟨r, old⟩ := e
      have hentry : (if r == p then (r, node) else (r, old)) =
          (r, if r = p then node else old) := by
        by_cases hr : r = p <;> simp [hr]
      rw [List.map_cons]
      show List.lookup q ((if r == p then (r, node) else (r, old)) :: _) = _
      rw [hentry, lookup_entry, lookup_entry, lookup_entry, ih]
      by_cases hr : r = p
      · by_cases hq : q = p <;> simp [hr, hq]
      · by_cases hq : q = p
        · simp [hq, Ne.symm hr]
        · simp [hr, hq]

/-- A node stands at the place where it was put, and nothing else is changed. -/
theorem lookup_put (fs : Files) (p q : FilePath) (node : FileNode) :
    (fs.put p node).entries.lookup q =
      if q = p.place then some node else fs.entries.lookup q := by
  unfold put
  simp only [any_key_eq_isSome]
  cases hold : fs.entries.lookup p.place with
  | some old =>
      show (fs.entries.map _).lookup q = _
      rw [lookup_replace, hold]
      rfl
  | none =>
      show (fs.entries ++ [(p.place, node)]).lookup q = _
      rw [List.lookup_append, lookup_entry]
      by_cases hq : q = p.place <;> simp [hq, hold]

/-- Putting a node changes no key but that of its place. -/
theorem mem_entries_put (hq : (q, node) ∈ fs.entries) (p : FilePath) (new : FileNode) :
    ∃ node', (q, node') ∈ (fs.put p new).entries := by
  unfold put
  simp only
  split
  · by_cases hplace : q = p.place
    · exact ⟨new, List.mem_map.2 ⟨_, hq, by simp [hplace]⟩⟩
    · exact ⟨node, List.mem_map.2 ⟨_, hq, by simp [hplace]⟩⟩
  · exact ⟨node, List.mem_append_left _ hq⟩

theorem nodeAt_put_self (fs : Files) (p : FilePath) (node : FileNode) :
    (fs.put p node).nodeAt p.place = some node := by
  rw [nodeAt, lookup_put, if_pos rfl]

/-- A directory stays one, unless something is put in its place. -/
theorem nodeAt_put_directory (h : fs.nodeAt q = some .directory) (hq : q ≠ p.place)
    (node : FileNode) : (fs.put p node).nodeAt q = some .directory := by
  unfold nodeAt at h ⊢
  rw [lookup_put, if_neg hq]
  cases hold : fs.entries.lookup q with
  | some old =>
      rw [hold] at h
      exact h
  | none =>
      simp only [hold] at h
      by_cases hnames : q.names.isEmpty
      · simp [hnames]
      · simp only [hnames] at h ⊢
        have hbelow : fs.entries.any
            (fun (r, _) => r.base == q.base && q.names.isPrefixOf r.names) := by
          by_contra hnone
          simp [hnone] at h
        obtain ⟨⟨r, old⟩, hmem, hr⟩ := List.any_eq_true.1 hbelow
        obtain ⟨old', hmem'⟩ := mem_entries_put hmem p node
        have hbelow' : (fs.put p node).entries.any
            (fun (r, _) => r.base == q.base && q.names.isPrefixOf r.names) :=
          List.any_eq_true.2 ⟨(r, old'), hmem', hr⟩
        simp [hbelow']

/-! ## Walking -/

/-- A name that leads on to a directory. -/
def Passes (fs : Files) (base : PathBase) (behind : List String) (n : String) : Prop :=
  n = ".." ∨ n.utf8ByteSize ≤ maxName ∧
    fs.nodeAt ⟨base, FilePath.climb base behind [n]⟩ = some .directory

theorem walk_of_passes (h : fs.Passes base behind n) :
    fs.walk base behind (n :: rest) =
      fs.walk base (FilePath.climb base behind [n]) rest := by
  rw [walk]
  rcases h with rfl | ⟨hsize, hnode⟩
  · rfl
  · by_cases hup : n = ".."
    · simp [hup]
    · simp [hup, Nat.not_lt.2 hsize, hnode]

/-- Where the next name does not lead on, the walk is over. -/
theorem walk_of_not_passes (h : ¬ fs.Passes base behind n) :
    n ≠ ".." ∧ fs.walk base behind (n :: rest) =
      if maxName < n.utf8ByteSize then .tooLong
      else
        match fs.nodeAt ⟨base, behind ++ [n]⟩ with
        | some (.file bytes) => if rest.isEmpty then .file bytes else .blocked
        | _ => .missing := by
  rw [Passes, not_or] at h
  obtain ⟨hup, hnode⟩ := h
  rw [FilePath.climb_name base behind hup] at hnode
  refine ⟨hup, ?_⟩
  rw [walk, FilePath.climb_name base behind hup]
  by_cases hsize : maxName < n.utf8ByteSize
  · simp [hup, hsize]
  · cases hat : fs.nodeAt ⟨base, behind ++ [n]⟩ with
    | none => simp [hup, hsize]
    | some node =>
        cases node with
        | file bytes => simp [hup, hsize]
        | directory => exact absurd ⟨Nat.not_lt.1 hsize, hat⟩ hnode

theorem walk_cons_eq_directory_iff :
    fs.walk base behind (n :: rest) = .directory ↔ fs.Passes base behind n ∧
      fs.walk base (FilePath.climb base behind [n]) rest = .directory := by
  by_cases h : fs.Passes base behind n
  · simp [walk_of_passes h, h]
  · rw [(walk_of_not_passes h).2]
    simp only [h, false_and, iff_false]
    split
    · simp
    · split
      · split <;> simp
      · simp

/-- Behind a directory the walk goes on from its place. -/
theorem walk_append (more : List String) (h : fs.walk base behind names = .directory) :
    fs.walk base behind (names ++ more) =
      fs.walk base (FilePath.climb base behind names) more := by
  induction names generalizing behind with
  | nil => rfl
  | cons n rest ih =>
      obtain ⟨hpasses, hrest⟩ := walk_cons_eq_directory_iff.1 h
      rw [List.cons_append, walk_of_passes hpasses, ih hrest, ← FilePath.climb_append]
      rfl

/-- The directories on the way to a place that is no directory are still there behind a write. -/
theorem walk_put (hplace : fs.nodeAt p.place ≠ some .directory) (node : FileNode)
    (h : fs.walk base behind names = .directory) :
    (fs.put p node).walk base behind names = .directory := by
  induction names generalizing behind with
  | nil => rfl
  | cons n rest ih =>
      obtain ⟨hpasses, hrest⟩ := walk_cons_eq_directory_iff.1 h
      refine walk_cons_eq_directory_iff.2 ⟨hpasses.imp_right (fun ⟨hsize, hnode⟩ => ?_), ih hrest⟩
      -- a directory on the way is not the place itself, which is none
      refine ⟨hsize, nodeAt_put_directory hnode ?_ node⟩
      intro heq
      exact hplace (heq ▸ hnode)

/-- What ends at a file comes from a directory. -/
theorem directory_of_walk (h : fs.walk base behind names = .file bytes) :
    ∃ front n, names = front ++ [n] ∧ fs.walk base behind front = .directory := by
  induction names generalizing behind with
  | nil => cases h
  | cons n rest ih =>
      by_cases hpasses : fs.Passes base behind n
      · rw [walk_of_passes hpasses] at h
        obtain ⟨front, last, rfl, hfront⟩ := ih h
        exact ⟨n :: front, last, rfl, walk_cons_eq_directory_iff.2 ⟨hpasses, hfront⟩⟩
      · rw [(walk_of_not_passes hpasses).2] at h
        -- a file is only found behind the last name
        have hlast : rest = [] := by
          by_contra hrest
          simp only [List.isEmpty_iff, hrest] at h
          split at h
          · cases h
          · split at h <;> cases h
        exact ⟨[], n, by rw [hlast]; rfl, rfl⟩

/-! ## Writing -/

/-- Where a file can be put: the last name does not lead on from the directory before it. -/
structure Leads (fs : Files) (p : FilePath) (front : List String) (n : String) : Prop where
  names : p.names = front ++ [n]
  directory : fs.walk p.place.base [] front = .directory
  size : n.utf8ByteSize ≤ maxName
  free : ¬ fs.Passes p.place.base (FilePath.climb p.place.base [] front) n

namespace Leads

theorem up (h : fs.Leads p front n) : n ≠ ".." :=
  fun hup => h.free (Or.inl hup)

theorem place (h : fs.Leads p front n) :
    p.place = ⟨p.place.base, FilePath.climb p.place.base [] front ++ [n]⟩ := by
  rw [← FilePath.climb_name _ _ h.up, ← FilePath.climb_append, ← h.names,
    FilePath.climb_place_base]
  rfl

theorem nodeAt_ne (h : fs.Leads p front n) : fs.nodeAt p.place ≠ some .directory := by
  intro hnode
  rw [h.place, ← FilePath.climb_name _ _ h.up] at hnode
  exact h.free (Or.inr ⟨h.size, hnode⟩)

/-- A file that is put there is found there. -/
theorem walk_put (h : fs.Leads p front n) (bytes : Array UInt8) :
    (fs.put p (.file bytes)).walk p.place.base [] p.names = .file bytes := by
  have hself := nodeAt_put_self fs p (.file bytes)
  rw [h.place] at hself
  have hnot : ¬ (fs.put p (.file bytes)).Passes p.place.base
      (FilePath.climb p.place.base [] front) n := by
    rintro (hup | ⟨-, hdirectory⟩)
    · exact h.up hup
    · rw [FilePath.climb_name _ _ h.up, hself] at hdirectory
      cases hdirectory
  rw [h.names, walk_append _ (Files.walk_put h.nodeAt_ne _ h.directory),
    (walk_of_not_passes hnot).2, if_neg (Nat.not_lt.2 h.size), hself]
  rfl

end Leads

/-- Where a walk from a directory over one more name finds a file or nothing, a file can be put. -/
theorem leads_of_walk (hnames : p.names = front ++ [n])
    (hdirectory : fs.walk p.place.base [] front = .directory)
    (hother : fs.walk p.place.base [] p.names ≠ .directory)
    (hlong : fs.walk p.place.base [] p.names ≠ .tooLong) : fs.Leads p front n := by
  rw [hnames, walk_append _ hdirectory] at hother hlong
  have hfree : ¬ fs.Passes p.place.base (FilePath.climb p.place.base [] front) n := by
    intro hpasses
    rw [walk_of_passes hpasses] at hother
    exact hother rfl
  refine ⟨hnames, hdirectory, ?_, hfree⟩
  by_contra hsize
  rw [(walk_of_not_passes hfree).2, if_pos (Nat.not_le.1 hsize)] at hlong
  exact hlong rfl

theorem status_eq_walk (hnull : ¬ p.text.toList.contains '\x00')
    (hlength : p.text.utf8ByteSize ≤ maxPath) :
    fs.status p = fs.walk p.place.base [] p.names := by
  rw [status, if_neg hnull, if_neg (Nat.not_lt.2 hlength)]

/-- A path that leads to a directory has a text that is no obstacle. -/
theorem walk_of_status (h : fs.status p = .directory) :
    fs.walk p.place.base [] p.names = .directory := by
  unfold status at h
  split at h
  · cases h
  · split at h
    · cases h
    · exact h

/-- Behind the last slash a file can be put if nothing stands there. -/
theorem leads_of_missing (hwalk : fs.walk p.place.base [] p.names = .missing)
    (hparent : fs.status ⟨p.base, p.names.dropLast⟩ = .directory) :
    ∃ front n, fs.Leads p front n := by
  have hdirectory : fs.walk p.place.base [] p.names.dropLast = .directory := walk_of_status hparent
  have hnames : p.names ≠ [] := by
    intro hnil
    rw [hnil] at hwalk
    cases hwalk
  exact ⟨_, _, leads_of_walk (List.dropLast_append_getLast hnames).symm hdirectory (by simp [hwalk])
    (by simp [hwalk])⟩

/-- A file that is written is put where a file can be put. -/
theorem write_eq_ok {fs' : Files} (h : fs.write p bytes = .ok fs') :
    fs' = fs.put p (.file bytes) ∧ ¬ p.text.toList.contains '\x00' ∧
      p.text.utf8ByteSize ≤ maxPath ∧ ∃ front n, fs.Leads p front n := by
  unfold write at h
  split at h
  · cases h
  rename_i hnull
  by_cases hlength : p.text.utf8ByteSize ≤ maxPath
  · rw [status_eq_walk hnull hlength] at h
    split at h
    · rename_i old hwalk
      obtain ⟨front, n, hnames, hdirectory⟩ := directory_of_walk hwalk
      cases h
      exact ⟨rfl, hnull, hlength, front, n,
        leads_of_walk hnames hdirectory (by simp [hwalk]) (by simp [hwalk])⟩
    · cases h
    · cases h
    · cases h
    · rename_i hwalk
      split at h
      · rename_i hparent
        cases h
        exact ⟨rfl, hnull, hlength, leads_of_missing hwalk hparent⟩
      · cases h
      · cases h
      · cases h
  · have hlong : fs.status p = .tooLong := by
      rw [status, if_neg hnull, if_pos (Nat.not_le.1 hlength)]
    rw [hlong] at h
    cases h

/-- A file that was written is read back. -/
theorem file?_write {fs' : Files} (h : fs.write p bytes = .ok fs') :
    fs'.file? p = .ok (some bytes) := by
  obtain ⟨rfl, hnull, hlength, front, n, hleads⟩ := write_eq_ok h
  rw [file?, status_eq_walk hnull hlength, hleads.walk_put]

end Files

end FlowCheck
