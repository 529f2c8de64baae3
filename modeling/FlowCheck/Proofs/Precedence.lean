import FlowCheck.Settings.Manager
import FlowCheck.Proofs.Ensures

/-!
# Which value of a setting is in effect

Settings are changed by overrides and by files, in any order, and read through the environment.
`Past` records what a sequence of calls set, the latest first, and which files it remembers.  The
manager keeps a single value for each setting, so it recalls the latest one of a past and not where
it came from: an override is in effect only until a file that mentions the setting is applied.
-/

namespace FlowCheck

/-- Where a value was given. -/
inductive Origin where
  | override | file
  deriving DecidableEq

/-- A value that a setting took. -/
structure Write where
  origin : Origin
  key : Key
  value : Value

/-- What a sequence of calls did: the values that settings took, the latest first, and the files it
remembers. -/
structure Past where
  writes : List Write := []
  paths : List FilePath := []

namespace Past

variable {past : Past} {k : Key}

/-- The latest value of a setting. -/
def latest (past : Past) (k : Key) : Option Value :=
  (past.writes.find? (fun w => w.key = k)).map Write.value

/-- The latest value of a setting that was given in one way. -/
def latestFrom (past : Past) (origin : Origin) (k : Key) : Option Value :=
  (past.writes.find? (fun w => w.key = k ∧ w.origin = origin)).map Write.value

/-- The past with one more value given to a setting. -/
def write (past : Past) (origin : Origin) (k : Key) (v : Value) : Past :=
  match k.setting.accept v with
  | .ok w => { past with writes := ⟨origin, k, w⟩ :: past.writes }
  | .error _ => past

/-- The setting that an entry of a section mentions, if there is one, with its value. -/
def mentionedIn (s : Section) : Value × Value → List (Key × Value)
  | (.text name, v) => ((Key.ofName? s name).map (fun k => (k, v))).toList
  | _ => []

/-- The settings that an entry of a document mentions, with their values. -/
def mentions : Value × Value → List (Key × Value)
  | (.text name, .map inner) =>
      match Section.ofName? name with
      | some s => inner.flatMap (mentionedIn s)
      | none => []
  | _ => []

/-- The past with a value that a file gives to a setting. -/
def give (past : Past) (mention : Key × Value) : Past :=
  past.write .file mention.1 mention.2

/-- The document that a file holds. -/
def documentAt (reader : Yaml.Reader) (fs : Files) (p : FilePath) : Option Value :=
  (fs.read p).toOption.bind fun bytes =>
    (textOfBytes? bytes).bind fun s => (reader s).toOption

/-- The past with a file remembered. -/
def remember (past : Past) (p : FilePath) : Past :=
  if past.paths.contains p then past else { past with paths := past.paths ++ [p] }

/-- The past with a document applied: every setting that it mentions took its value, and the file is
remembered unless the document is empty. -/
def apply (past : Past) (p : FilePath) : Value → Past
  | .map (entry :: rest) => (((entry :: rest).flatMap mentions).foldl give past).remember p
  | _ => past

/-- The past with a file applied. -/
def load (reader : Yaml.Reader) (fs : Files) (past : Past) (p : FilePath) : Past :=
  match documentAt reader fs p with
  | some v => past.apply p v
  | none => past

/-- The past with every file applied again that is still there. -/
def reload (reader : Yaml.Reader) (fs : Files) (past : Past) : Past :=
  (past.paths.filter (fun p => (fs.isPresent p).toOption = some true)).foldl (load reader fs) past

/-- A manager recalls the latest value of every setting and the remembered files. -/
structure Recalls (past : Past) (m : Manager) : Prop where
  paths : m.paths = past.paths
  stored : ∀ k, m.store.stored k = (past.latest k).getD .null
  given : ∀ w ∈ past.writes, w.value ≠ .null

end Past

/-! ## Accepted values -/

theorem Setting.passes_of_accept {s : Setting} {v w : Value} (h : s.accept v = .ok w) :
    s.check.passes? w = some true := by
  unfold accept at h
  extract_lets read at h
  cases hread : read with
  | error e =>
      rw [hread] at h
      cases h
  | ok given =>
      rw [hread] at h
      cases hpasses : s.check.passes? given with
      | none => simp [hpasses] at h
      | some passes =>
          cases passes with
          | false => simp [hpasses] at h
          | true =>
              obtain rfl : given = w := by simpa [hpasses] using h
              exact hpasses

/-- No setting takes nothing as a value. -/
theorem Key.accept_ne_null {k : Key} {v w : Value} (h : k.setting.accept v = .ok w) :
    w ≠ .null := by
  have hnull : k.setting.check.passes? .null ≠ some true := by
    cases k <;> decide
  rintro rfl
  exact hnull (Setting.passes_of_accept h)

namespace Past

theorem write_of_accept (past : Past) (origin : Origin) {k : Key} {v w : Value}
    (h : k.setting.accept v = .ok w) :
    past.write origin k v = { past with writes := ⟨origin, k, w⟩ :: past.writes } := by
  rw [write, h]

theorem Recalls.write {past : Past} {m : Manager} (hr : past.Recalls m) (origin : Origin) {k : Key}
    {v w : Value} (h : k.setting.accept v = .ok w) :
    (past.write origin k v).Recalls { m with store := m.store.put k w } := by
  rw [write_of_accept past origin h]
  constructor
  · exact hr.paths
  · intro k'
    show (if k' = k then w else m.store.stored k') = _
    by_cases heq : k' = k
    · subst heq
      simp [latest]
    · rw [if_neg heq, hr.stored k']
      simp [latest, Ne.symm heq]
  · intro write hwrite
    rcases List.mem_cons.1 hwrite with rfl | hmem
    · exact Key.accept_ne_null h
    · exact hr.given write hmem

/-! ## What calls do to a past -/

/-- An action that ends well takes what the manager recalls from a past to another. -/
def Records {α : Type} (action : Manager.Action α) (f : Past → Past) : Prop :=
  ∀ (past : Past) (m : Manager), past.Recalls m →
    Ensures action m (fun _ m' => (f past).Recalls m') (fun _ _ => True)

namespace Records

variable {α β : Type} {f g : Past → Past}

theorem pure (a : α) : Records (Pure.pure a) id :=
  fun _ _ hr => Ensures.of_pure hr

theorem throw (e : ConfigFault) : Records (throw e : Manager.Action α) f :=
  fun _ _ _ => Ensures.of_throw trivial

theorem bind {action : Manager.Action α} {next : α → Manager.Action β} (h : Records action f)
    (hnext : ∀ a, Records (next a) g) : Records (action >>= next) (fun past => g (f past)) := by
  intro past m hr
  apply Ensures.of_bind
  exact (h past m hr).mono (fun a m' hr' => hnext a _ _ hr') (fun _ _ _ => trivial)

theorem congr {action : Manager.Action α} (h : Records action f) (heq : ∀ past, f past = g past) :
    Records action g := by
  obtain rfl : f = g := funext heq
  exact h

theorem forM {l : List β} {action : β → Manager.Action Unit} {f : Past → β → Past}
    (h : ∀ b, Records (action b) (fun past => f past b)) :
    Records (l.forM action) (fun past => l.foldl f past) := by
  induction l with
  | nil => exact pure ()
  | cons b rest ih => exact bind (h b) (fun _ => ih)

theorem putValue (origin : Origin) (k : Key) (v : Value) :
    Records (Manager.putValue k v) (fun past => past.write origin k v) := by
  rw [Manager.putValue]
  cases haccept : k.setting.accept v with
  | error e => exact throw _
  | ok w => exact fun past m hr => Ensures.of_modify (hr.write origin haccept)

theorem notify (env : Environment) : Records (Manager.notify env) id := by
  intro past m hr
  apply Ensures.of_bind
  apply Ensures.of_get
  -- a watcher hears of the settings and changes none
  refine (Ensures.of_forM (P := fun m' => past.Recalls m') ?_ hr)
  intro name _ m' hr'
  apply Ensures.of_bind
  apply Ensures.of_get
  split
  · exact Ensures.of_throw trivial
  · exact Ensures.of_set ⟨hr'.paths, hr'.stored, hr'.given⟩

theorem setPath (env : Environment) (path : String) {k : Key} (v : Value)
    (hpath : Target.ofPath path = .ok (.setting k)) :
    Records (Manager.setPath env path v) (fun past => past.write .override k v) := by
  rw [Manager.setPath, hpath]
  exact bind (putValue .override k v) (fun _ => notify env)

/-! ### Documents -/

theorem applyNames {path : String} {entries : List (Value × Value)}
    {apply : String → Value → Manager.Action Unit} {f : Past → Value × Value → Past}
    (h : ∀ name v, Records (apply name v) (fun past => f past (.text name, v))) :
    Records (Manager.applyNames path entries apply) (fun past => entries.foldl f past) := by
  rw [Manager.applyNames]
  apply forM
  rintro ⟨key, v⟩
  cases key with
  | text name => exact h name v
  | _ => exact throw _

/-- What is applied to a reserved name gives no setting a value. -/
theorem applyReserved (path : String) (taken : List String) (name : String) (v : Value) :
    Records (Manager.applyReserved path taken name v) id := by
  unfold Manager.applyReserved
  split
  · exact throw _
  · split
    · rename_i inner
      split
      · refine congr (applyNames (f := fun past _ => past) ?_) ?_
        · intro below w
          dsimp only
          split <;> exact throw _
        · intro past
          induction inner with
          | nil => rfl
          | cons _ _ ih => exact ih
      · exact throw _
    · exact throw _

/-- A document gives the settings that it mentions their values, in its order. -/
theorem applyMentions {path : String} {entries : List (Value × Value)}
    {apply : String → Value → Manager.Action Unit} {f : Value × Value → List (Key × Value)}
    (h : ∀ name v, Records (apply name v) (fun past => (f (.text name, v)).foldl give past)) :
    Records (Manager.applyNames path entries apply)
      (fun past => (entries.flatMap f).foldl give past) := by
  apply congr (applyNames (f := fun past entry => (f entry).foldl give past) h)
  intro past
  rw [List.foldl_flatMap]

theorem applySection (s : Section) (entries : List (Value × Value)) :
    Records (Manager.applySection s entries)
      (fun past => (entries.flatMap (mentionedIn s)).foldl give past) := by
  apply applyMentions
  intro name v
  simp only [mentionedIn]
  cases Key.ofName? s name with
  | none => exact applyReserved _ _ _ _
  | some k => exact putValue .file k v

theorem applyEntries (entries : List (Value × Value)) :
    Records (Manager.applyEntries entries)
      (fun past => (entries.flatMap mentions).foldl give past) := by
  apply applyMentions
  intro name v
  cases hsection : Section.ofName? name with
  | none =>
      apply congr (applyReserved _ _ _ _)
      intro past
      cases v <;> simp [mentions, hsection]
  | some s =>
      cases v with
      | map inner =>
          simp only [mentions, hsection]
          exact applySection s inner
      | _ => exact throw _

/-! ### Files -/

theorem remember (p : FilePath) :
    Records
      (modify fun m => if m.paths.contains p then m else { m with paths := m.paths ++ [p] })
      (fun past => past.remember p) := by
  intro past m hr
  apply Ensures.of_modify
  show (past.remember p).Recalls _
  rw [Past.remember, hr.paths]
  split
  · exact hr
  · exact ⟨rfl, hr.stored, hr.given⟩

theorem applyDocument (p : FilePath) (v : Value) :
    Records (Manager.applyDocument p v) (fun past => past.apply p v) := by
  unfold Manager.applyDocument
  cases v with
  | map entries =>
      cases entries with
      | nil => exact pure ()
      | cons entry rest => exact bind (applyEntries (entry :: rest)) (fun _ => remember p)
  | _ =>
      split
      · exact throw _
      · exact pure ()

theorem loadFile (reader : Yaml.Reader) (fs : Files) (p : FilePath) :
    Records (Manager.loadFile reader fs p) (fun past => past.load reader fs p) := by
  unfold Manager.loadFile
  split
  · exact throw _
  · exact throw _
  · cases hbytes : fs.read p with
    | error e => exact throw _
    | ok bytes =>
        dsimp only
        cases htext : textOfBytes? bytes with
        | none => exact throw _
        | some s =>
            dsimp only
            cases hread : reader s with
            | error fault => cases fault <;> exact throw _
            | ok v =>
                have hdocument : documentAt reader fs p = some v := by
                  simp [documentAt, hbytes, htext, hread, Except.toOption]
                apply congr (applyDocument p v)
                intro past
                rw [load, hdocument]

theorem loadPresent (reader : Yaml.Reader) (fs : Files) (paths : List FilePath) :
    Records (Manager.loadPresent reader fs paths) (fun past =>
      (paths.filter (fun p => (fs.isPresent p).toOption = some true)).foldl
        (load reader fs) past) := by
  induction paths with
  | nil => exact pure []
  | cons p rest ih =>
      rw [Manager.loadPresent]
      cases hpresent : fs.isPresent p with
      | error e => exact throw _
      | ok present =>
          cases present with
          | false =>
              rw [List.filter_cons_of_neg (by simp [hpresent, Except.toOption])]
              exact ih
          | true =>
              rw [List.filter_cons_of_pos (by simp [hpresent, Except.toOption])]
              exact bind (loadFile reader fs p) (fun _ => bind ih (fun _ => pure _))

theorem reload (reader : Yaml.Reader) (fs : Files) (env : Environment) :
    Records (Manager.reload reader fs env) (fun past => past.reload reader fs) := by
  intro past m hr
  apply Ensures.of_bind
  apply Ensures.of_get
  rw [hr.paths]
  exact bind (loadPresent reader fs past.paths) (fun _ => notify env) past m hr

end Records

end Past

/-! ## Sequences of calls -/

/-- What a call asks for. -/
inductive Operation where
  | set (path : String) (v : Value)
  | load (p : FilePath)
  | reload

/-- A call, with the environment and the files that it meets and the way to read them. -/
structure Call where
  env : Environment := []
  files : Files := {}
  reader : Yaml.Reader := Yaml.read
  operation : Operation

def Call.run (c : Call) : Manager.Action Unit :=
  match c.operation with
  | .set path v => Manager.setPath c.env path v
  | .load p => Manager.loadFile c.reader c.files p
  | .reload => Manager.reload c.reader c.files c.env

namespace Past

variable {past : Past} {m : Manager} {k : Key}

/-- The past with one more call. -/
def after (past : Past) (c : Call) : Past :=
  match c.operation with
  | .set path v =>
      match Target.ofPath path with
      | .ok (.setting k) => past.write .override k v
      | _ => past
  | .load p => past.load c.reader c.files p
  | .reload => past.reload c.reader c.files

/-- The past of calls that were made one after the other. -/
def ofCalls (calls : List Call) : Past :=
  calls.foldl after {}

theorem Records.run (c : Call) : Records c.run (fun past => past.after c) := by
  obtain ⟨env, files, reader, operation⟩ := c
  cases operation with
  | load p => exact loadFile reader files p
  | reload => exact reload reader files env
  | set path v =>
      show Records (Manager.setPath env path v) _
      cases htarget : Target.ofPath path with
      | error e =>
          rw [Manager.setPath, htarget]
          exact throw _
      | ok target =>
          cases target with
          | setting k =>
              apply congr (setPath env path v htarget)
              intro past
              simp only [after, htarget]
          | _ =>
              rw [Manager.setPath, htarget]
              exact throw _

theorem recalls_reset (m : Manager) : ({} : Past).Recalls m.reset := by
  constructor
  · rfl
  · intro k
    rfl
  · intro w hw
    cases hw

theorem recalls_of_run {calls : List Call} {m' : Manager}
    (h : (calls.forM Call.run).run m.reset = .ok () m') : (ofCalls calls).Recalls m' := by
  have hrecords := Records.forM (l := calls) Records.run
  exact (hrecords {} m.reset (recalls_reset m)).of_ok h

/-! ## Values in effect -/

/-- What a path to a setting leads to, given the value it took, if any. -/
def inEffect (k : Key) (env : Environment) (taken : Option Value) : Except ConfigFault Target :=
  match k.setting.override? env with
  | some text =>
      match k.setting.coerce text with
      | .ok v => .ok (.property v)
      | .error e => .error (.numeral e)
  | none => .ok (.property (taken.getD k.setting.default))

theorem Recalls.getPath (hr : past.Recalls m) (env : Environment) {path : String}
    (hpath : Target.ofPath path = .ok (.setting k)) :
    m.getPath env path = inEffect k env (past.latest k) := by
  simp only [Manager.getPath, hpath, Store.read, Setting.read, inEffect, hr.stored k]
  cases k.setting.override? env with
  | some text =>
      dsimp only
      cases k.setting.coerce text <;> rfl
  | none =>
      cases hfind : past.writes.find? (fun w => w.key = k) with
      | none => simp [latest, hfind]
      | some w =>
          -- what was given is not null, so it is not taken for nothing
          have hne := hr.given w (List.mem_of_find?_eq_some hfind)
          simp only [latest, hfind, Option.map_some, Option.getD_some]

/-- The value that the documented order of layers gives a setting: the latest override, or else the
latest value from a file. -/
def documented (past : Past) (k : Key) : Option Value :=
  (past.latestFrom .override k).or (past.latestFrom .file k)

/-- The latest value of a setting is an override, or the setting was never overridden. -/
def Upheld (past : Past) (k : Key) : Prop :=
  ∀ w, past.writes.find? (fun w => w.key = k) = some w →
    w.origin = .override ∨ past.latestFrom .override k = none

theorem latestFrom_of_find? {w : Write}
    (h : past.writes.find? (fun w => w.key = k) = some w) :
    past.latestFrom w.origin k = some w.value := by
  obtain ⟨hkey, before, behind, hwrites, hbefore⟩ := List.find?_eq_some_iff_append.1 h
  have hfind : past.writes.find? (fun v => v.key = k ∧ v.origin = w.origin) = some w := by
    apply List.find?_eq_some_iff_append.2
    refine ⟨by simpa using hkey, before, behind, hwrites, ?_⟩
    intro v hv
    have hother : v.key ≠ k := by simpa using hbefore v hv
    simp [hother]
  rw [latestFrom, hfind]
  rfl

theorem latestFrom_eq_none {origin : Origin}
    (h : past.writes.find? (fun w => w.key = k) = none) : past.latestFrom origin k = none := by
  rw [latestFrom, Option.map_eq_none_iff, List.find?_eq_none]
  intro w hw
  have hother : w.key ≠ k := by simpa using List.find?_eq_none.1 h w hw
  simp [hother]

theorem latest_of_upheld (h : past.Upheld k) : past.latest k = past.documented k := by
  cases hfind : past.writes.find? (fun w => w.key = k) with
  | none => simp [latest, documented, hfind, latestFrom_eq_none hfind]
  | some w =>
      have hlatest : past.latest k = some w.value := by simp [latest, hfind]
      have hfrom := latestFrom_of_find? hfind
      rw [hlatest, documented]
      cases horigin : w.origin with
      | override => simp [← horigin, hfrom]
      | file =>
          have hnone := (h w hfind).resolve_left (by simp [horigin])
          simp [hnone, ← horigin, hfrom]

theorem latest_of_not_upheld (h : ¬past.Upheld k) : past.latest k = past.latestFrom .file k := by
  obtain ⟨w, h⟩ := Classical.not_forall.1 h
  obtain ⟨hfind, h⟩ := Classical.not_imp.1 h
  have horigin : w.origin ≠ .override := fun heq => h (Or.inl heq)
  have hfile : w.origin = .file := by
    cases hw : w.origin with
    | override => exact absurd hw horigin
    | file => rfl
  rw [← hfile, latestFrom_of_find? hfind, latest, hfind]
  rfl

end Past

/-- After any calls that end well, with any files and any way to read them, a setting is what the
environment says, or else the latest value that an override or a file gave it, or else its default.
That is the documented order as long as no file mentions the setting after it was overridden; from
then on the file counts. -/
theorem getPath_of_calls (m : Manager) (calls : List Call) (m' : Manager)
    (hrun : (calls.forM Call.run).run m.reset = .ok () m') (env : Environment) (path : String)
    (k : Key) (hpath : Target.ofPath path = .ok (.setting k)) :
    let past := Past.ofCalls calls
    m'.getPath env path = Past.inEffect k env (past.latest k) ∧
      (past.Upheld k → m'.getPath env path = Past.inEffect k env (past.documented k)) ∧
      (¬past.Upheld k → m'.getPath env path = Past.inEffect k env (past.latestFrom .file k)) := by
  intro past
  have hget : m'.getPath env path = Past.inEffect k env (past.latest k) :=
    (Past.recalls_of_run hrun).getPath env hpath
  refine ⟨hget, ?_, ?_⟩
  · intro hupheld
    rw [hget, Past.latest_of_upheld hupheld]
  · intro hlost
    rw [hget, Past.latest_of_not_upheld hlost]

namespace Sample

/-- Where the step budget is found. -/
def budget : String := "runtime.max_steps"

def budgetFile : FilePath := ⟨.working, ["budget.yaml"]⟩

/-- A file that mentions the step budget. -/
def budgetFiles : Files :=
  ⟨[(budgetFile, .file "runtime:\n  max_steps: 10\n".toUTF8.data)]⟩

/-- The budget is loaded from the file and then overridden. -/
def overridden : List Call :=
  [{ files := budgetFiles, operation := .load budgetFile },
    { operation := .set budget (.int 20) }]

/-- The budget is overridden, and the file is applied again. -/
def reapplied : List Call :=
  overridden ++ [{ files := budgetFiles, operation := .reload }]

/-- The number that a path leads to. -/
def number? : Except ConfigFault Target → Option Int
  | .ok (.property v) => v.integer?
  | _ => none

/-- The number that the budget's path leads to after calls from fresh settings, if they end well. -/
def budgetAfter? (calls : List Call) : Option Int :=
  match (calls.forM Call.run).run ({} : Manager).reset with
  | .ok _ m => number? (m.getPath [] budget)
  | .error _ _ => none

theorem run_of_budgetAfter? (calls : List Call) (n : Int) (h : budgetAfter? calls = some n) :
    ∃ m, (calls.forM Call.run).run ({} : Manager).reset = .ok () m ∧
      number? (m.getPath [] budget) = some n := by
  cases hrun : (calls.forM Call.run).run ({} : Manager).reset with
  | ok u m =>
      rw [budgetAfter?, hrun] at h
      exact ⟨m, rfl, h⟩
  | error e m =>
      rw [budgetAfter?, hrun] at h
      cases h

theorem target_budget : Target.ofPath budget = .ok (.setting .maxSteps) := rfl

theorem upheld_overridden : (Past.ofCalls overridden).Upheld .maxSteps := by
  have horigin : ((Past.ofCalls overridden).writes.find? (fun w => w.key = .maxSteps)).map
      Write.origin = some .override := by decide +kernel
  intro w hw
  rw [hw] at horigin
  exact Or.inl (Option.some.inj horigin)

theorem not_upheld_reapplied : ¬(Past.ofCalls reapplied).Upheld .maxSteps := by
  have horigin : ((Past.ofCalls reapplied).writes.find? (fun w => w.key = .maxSteps)).map
      Write.origin = some .file := by decide +kernel
  have hoverride : ((Past.ofCalls reapplied).latestFrom .override .maxSteps).isSome = true := by
    decide +kernel
  intro hupheld
  obtain ⟨w, hw, hfile⟩ := Option.map_eq_some_iff.1 horigin
  rcases hupheld w hw with hover | hnone
  · rw [hfile] at hover
    cases hover
  · rw [hnone] at hoverride
    cases hoverride

end Sample

theorem getPath_of_calls_overridden :
    (∃ m, (Sample.overridden.forM Call.run).run ({} : Manager).reset = .ok () m ∧
      (Past.ofCalls Sample.overridden).Upheld .maxSteps ∧
      m.getPath [] Sample.budget =
        Past.inEffect .maxSteps [] ((Past.ofCalls Sample.overridden).documented .maxSteps)) ∧
    ∃ m, (Sample.reapplied.forM Call.run).run ({} : Manager).reset = .ok () m ∧
      ¬(Past.ofCalls Sample.reapplied).Upheld .maxSteps ∧
      m.getPath [] Sample.budget = Past.inEffect .maxSteps []
        ((Past.ofCalls Sample.reapplied).latestFrom .file .maxSteps) := by
  constructor
  · obtain ⟨m, hrun, -⟩ := Sample.run_of_budgetAfter? Sample.overridden 20 (by decide +kernel)
    obtain ⟨-, hkept, -⟩ := getPath_of_calls {} _ m hrun [] _ _ Sample.target_budget
    exact ⟨m, hrun, Sample.upheld_overridden, hkept Sample.upheld_overridden⟩
  · obtain ⟨m, hrun, -⟩ := Sample.run_of_budgetAfter? Sample.reapplied 10 (by decide +kernel)
    obtain ⟨-, -, hlost⟩ := getPath_of_calls {} _ m hrun [] _ _ Sample.target_budget
    exact ⟨m, hrun, Sample.not_upheld_reapplied, hlost Sample.not_upheld_reapplied⟩

/-- An override does not outlast a reload of a file that mentions the setting. -/
theorem override_lost_on_reload :
    ∃ m, (Sample.reapplied.forM Call.run).run ({} : Manager).reset = .ok () m ∧
      m.getPath [] Sample.budget ≠
        Past.inEffect .maxSteps [] ((Past.ofCalls Sample.reapplied).documented .maxSteps) := by
  obtain ⟨m, hrun, hnumber⟩ := Sample.run_of_budgetAfter? Sample.reapplied 10 (by decide +kernel)
  have hdocumented : Sample.number? (Past.inEffect .maxSteps []
      ((Past.ofCalls Sample.reapplied).documented .maxSteps)) = some 20 := by decide +kernel
  refine ⟨m, hrun, ?_⟩
  intro heq
  rw [heq, hdocumented] at hnumber
  cases hnumber

end FlowCheck
