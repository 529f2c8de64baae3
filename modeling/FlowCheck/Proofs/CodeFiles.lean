import FlowCheck.Command.Perform
import FlowCheck.Proofs.Ensures
import FlowCheck.Proofs.FileWrites
import FlowCheck.Proofs.HexText
import Mathlib

/-!
# Code in files

Assembled code is written to a file as raw bytes, and a file of code is read as hexadecimal text if
it is such text and as raw bytes otherwise.  So code comes back from its file exactly if it is not
itself hexadecimal text, or is empty.  Code that is hexadecimal text comes back as the bytes that the
text denotes, at most half as many.
-/

namespace FlowCheck.Command

open CodeInput

variable {α : Type} {t : Session} {argument : String} {code : List UInt8} {bytes : Array UInt8}

/-! ## Loading code -/

/-- The text of bytes, a character each. -/
def textOf (code : List UInt8) : List Char :=
  code.map (fun b => Char.ofNat b.toNat)

/-- Bytes that are read as hexadecimal text. -/
def ReadsAsHex (code : List UInt8) : Prop :=
  (∀ b ∈ code, b < 128) ∧ IsHexText (textOf code)

theorem ensures_orFail {ε : Type} {x : Except ε α} {failure : ε → Failure}
    {post : α → Session → Prop} {bad : Failure → Session → Prop} (hok : ∀ a, x = .ok a → post a t)
    (herror : ∀ e, x = .error e → bad (failure e) t) : Ensures (orFail x failure) t post bad := by
  cases x with
  | ok a => exact Ensures.of_pure (hok a rfl)
  | error e => exact Ensures.of_throw (herror e rfl)

/-- A computation that can only end in one way ends in that way. -/
theorem run_of_ensures {m : Action α} {a : α}
    (h : Ensures m t (fun a' t' => a' = a ∧ t' = t) (fun _ _ => False)) : m.run t = .ok a t := by
  unfold Ensures at h
  split at h
  · rename_i a' t' hrun
    rw [hrun, h.1, h.2]
  · exact h.elim

/-- Code is read from a file in one of two ways. -/
theorem ensures_loadCode {post : Array UInt8 → Session → Prop}
    (hfile : t.files.file? (.ofText argument) = .ok (some code.toArray))
    (htext : ReadsAsHex code → Ensures (orFail ((CodeInput.text (String.ofList (textOf code))).code
      "code") Failure.input) t post (fun _ _ => False))
    (hraw : ¬ ReadsAsHex code → post code.toArray t) :
    Ensures (loadCode argument) t post (fun _ _ => False) := by
  refine Ensures.of_bind (Ensures.of_get (Ensures.of_bind (ensures_orFail ?_ (by simp [hfile]))))
  intro found hfound
  obtain rfl : some code.toArray = found := by simpa [hfile] using hfound
  have hascii : code.toArray.all (· < 128) = true ↔ ∀ b ∈ code, b < 128 := by simp
  have hhex : (hexBytes? (String.ofList (textOf code)).toList).isSome = true ↔
      IsHexText (textOf code) := by
    rw [String.toList_ofList]
    exact isSome_hexBytes?_iff
  simp only
  split
  · rename_i hall
    split
    · rename_i htext'
      exact htext ⟨hascii.1 hall, hhex.1 htext'⟩
    · rename_i htext'
      exact Ensures.of_pure (hraw (fun h => htext' (hhex.2 h.2)))
  · rename_i hall
    exact Ensures.of_pure (hraw (fun h => hall (hascii.2 h.1)))

/-- A file of hexadecimal text is read as the bytes that it denotes. -/
theorem run_loadCode_text (hfile : t.files.file? (.ofText argument) = .ok (some code.toArray))
    (hascii : ∀ b ∈ code, b < 128) (hbytes : hexBytes? (textOf code) = some bytes)
    (hsize : bytes.size ≤ maxCodeSize) : (loadCode argument).run t = .ok bytes t := by
  have hcode : (CodeInput.text (String.ofList (textOf code))).code "code" = .ok bytes := by
    simp only [CodeInput.code, CodeInput.toBytes, String.toList_ofList, hbytes]
    rw [if_neg (Nat.not_lt.2 hsize)]
  have hhex : ReadsAsHex code := ⟨hascii, isSome_hexBytes?_iff.1 (by simp [hbytes])⟩
  refine run_of_ensures (ensures_loadCode hfile (fun _ => ?_) (fun h => absurd hhex h))
  rw [hcode]
  exact Ensures.of_pure ⟨rfl, rfl⟩

/-- Any other file is read as it is. -/
theorem run_loadCode_raw (hfile : t.files.file? (.ofText argument) = .ok (some code.toArray))
    (hraw : ¬ ReadsAsHex code) : (loadCode argument).run t = .ok code.toArray t :=
  run_of_ensures (ensures_loadCode hfile (fun h => absurd h hraw) (fun _ => ⟨rfl, rfl⟩))

theorem ensures_modeOr (mode : Option OperandMode) :
    Ensures (modeOr mode) t (fun m t' => t' = t ∧ t.manager.store.modeOr t.env mode = .ok m)
      (fun _ _ => True) :=
  Ensures.of_bind (Ensures.of_get (ensures_orFail (fun _ hm => ⟨rfl, hm⟩) (by simp)))

/-- The commands that take code find these bytes behind an argument. -/
structure Sees (t : Session) (argument : String) (bytes : Array UInt8) : Prop where
  load : (loadCode argument).run t = .ok bytes t
  program : ∀ mode, (programOf mode bytes).run t = .ok (Program.ofCode mode bytes) t
  validate : ∀ table mode, (performValidate argument table mode).run t =
    (validateCode bytes table mode).run t
  disassemble : ∀ mode, (performDisassemble argument mode).run t =
    (do listCode (← modeOr mode) bytes : Action Result).run t
  run : ∀ table calldata maxSteps unchecked mode,
    (performRun argument table calldata maxSteps unchecked mode).run t =
      (do
        let machine ← orFail (t.manager.store.deployment t.env { mode }) Failure.mode
        runCode machine bytes table calldata maxSteps unchecked : Action Result).run t

/-- The commands see what loading yields. -/
theorem sees_of_load (hload : (loadCode argument).run t = .ok bytes t)
    (hsize : bytes.size ≤ maxCodeSize) : Sees t argument bytes where
  load := hload
  program mode := by
    have hcode : (CodeInput.bytes bytes).code "code" = .ok bytes := by
      simp only [CodeInput.code, CodeInput.toBytes]
      rw [if_neg (Nat.not_lt.2 hsize)]
    rw [programOf, hcode]
    rfl
  validate table mode := by
    rw [performValidate, EStateM.run_bind, hload]
  disassemble mode := by
    rw [performDisassemble, EStateM.run_bind, EStateM.run_bind]
    cases hmode : (modeOr mode).run t with
    | error e t' => rfl
    | ok m t' =>
        -- the mode is read first, and that changes nothing
        obtain ⟨rfl, -⟩ := (ensures_modeOr mode).of_ok hmode
        show (loadCode argument >>= listCode m).run t' = (listCode m bytes).run t'
        rw [EStateM.run_bind, hload]
  run table calldata maxSteps unchecked mode := by
    rw [performRun, EStateM.run_bind]
    show (orFail (t.manager.store.deployment t.env { mode }) Failure.mode >>= fun machine =>
      loadCode argument >>= fun bytes =>
        runCode machine bytes table calldata maxSteps unchecked).run t = _
    cases t.manager.store.deployment t.env { mode } with
    | error e => rfl
    | ok machine =>
        show (loadCode argument >>= fun bytes =>
          runCode machine bytes table calldata maxSteps unchecked).run t = _
        rw [EStateM.run_bind, hload]
        rfl

/-! ## Writing assembled code -/

/-- What assembling reports. -/
def assembled (mode : OperandMode) (code : List UInt8) : Result where
  value := .record [("bytecode", .text ("0x" ++ Text.Hex.ofBytes code)),
    ("size", .nat code.length), ("operand", .text mode.name)]

/-- The source that an argument names: the standard input, or the text of a file. -/
inductive IsSource (t : Session) (stdin : String) : String → String → Prop where
  | input : IsSource t stdin "-" stdin
  | file {input source : String} {bytes : Array UInt8} (hinput : input ≠ "-")
      (hread : t.files.read (.ofText input) = .ok bytes)
      (htext : textOfBytes? bytes = some source) : IsSource t stdin input source

theorem ensures_sourceText (stdin input : String) :
    Ensures (sourceText stdin input) t (fun source t' => t' = t ∧ IsSource t stdin input source)
      (fun _ _ => True) := by
  unfold sourceText
  split
  · rename_i hinput
    obtain rfl := eq_of_beq hinput
    exact Ensures.of_pure ⟨rfl, .input⟩
  · rename_i hinput
    refine Ensures.of_bind (Ensures.of_get (Ensures.of_bind (ensures_orFail ?_ (by simp))))
    intro bytes hbytes
    split
    · rename_i htext
      exact Ensures.of_pure ⟨rfl, .file (fun heq => hinput (by simp [heq])) hbytes htext⟩
    · exact Ensures.of_throw trivial

/-- The code that assembling yields: that of the source, in the mode asked for or configured. -/
structure Assembles (t : Session) (stdin input : String) (mode : Option OperandMode)
    (m : OperandMode) (code : List UInt8) : Prop where
  mode : t.manager.store.modeOr t.env mode = .ok m
  code : ∃ source items, IsSource t stdin input source ∧ Assembler.parse source = .ok items ∧
    Assembler.assemble m items = .ok code

theorem Assembles.mode_of_some {stdin input : String} {asked m : OperandMode}
    (h : Assembles t stdin input (some asked) m code) : m = asked := by
  cases h.mode
  rfl

/-- Assembling to a file leaves the code of the source, which it reports, in that file. -/
theorem ensures_performAssemble (stdin input : String) (mode : Option OperandMode)
    (hpath : argument ≠ "") :
    Ensures (performAssemble stdin input (some argument) mode) t (fun result t' =>
      ∃ m code, Assembles t stdin input mode m code ∧ result = assembled m code ∧
        t'.files.file? (.ofText argument) = .ok (some code.toArray)) (fun _ _ => True) := by
  unfold performAssemble
  refine Ensures.of_bind ((ensures_sourceText stdin input).mono ?_ (fun _ _ h => h))
  rintro source _ ⟨rfl, hsource⟩
  refine Ensures.of_bind ((ensures_modeOr mode).mono ?_ (fun _ _ h => h))
  rintro m _ ⟨rfl, hm⟩
  refine Ensures.of_bind (ensures_orFail (fun items hitems => ?_) (by simp))
  refine Ensures.of_bind (ensures_orFail (fun code hcode => ?_) (by simp))
  have houtput : (some argument).filter (fun s => !s.isEmpty) = some argument := by
    simp [hpath]
  simp only [houtput]
  refine Ensures.of_bind (Ensures.of_get (Ensures.of_bind (ensures_orFail ?_ (by simp))))
  intro files hfiles
  exact Ensures.of_bind (Ensures.of_set (Ensures.of_pure
    ⟨m, code, ⟨hm, source, items, hsource, hitems, hcode⟩, rfl, Files.file?_write hfiles⟩))

/-- Code of at most the largest size comes back from a file exactly if it is empty or not
hexadecimal text; code that is hexadecimal text comes back as the bytes that it denotes, at most half
as many.  The commands see what comes back.  Assembling to a file leaves there the code that it
reports: that of the source that was given, in the mode that was asked for, if one was, and else in
the one that is configured. -/
theorem sees_code_of_file :
    (∀ (code : List UInt8) (t : Session) (path : String), code.length ≤ maxCodeSize →
      t.files.file? (.ofText path) = .ok (some code.toArray) →
      ∃ bytes, Sees t path bytes ∧ (bytes = code.toArray ↔ code = [] ∨ ¬ ReadsAsHex code) ∧
        (ReadsAsHex code → Denotes (textOf code) bytes.toList ∧ 2 * bytes.size ≤ code.length)) ∧
    ∀ (stdin input path : String) (mode : Option OperandMode) (s s' : Session) (result : Result),
      path ≠ "" → (performAssemble stdin input (some path) mode).run s = .ok result s' →
      ∃ m code, Assembles s stdin input mode m code ∧ (∀ asked, mode = some asked → m = asked) ∧
        result = assembled m code ∧
        s'.files.file? (.ofText path) = .ok (some code.toArray) := by
  constructor
  · intro code t path hsize hfile
    by_cases hhex : ReadsAsHex code
    · obtain ⟨bytes, hbytes⟩ := Option.isSome_iff_exists.1 (isSome_hexBytes?_iff.2 hhex.2)
      have hdenotes := denotes_of_hexBytes? hbytes
      have hhalf : 2 * bytes.size ≤ code.length := by
        have hle := hdenotes.length_le
        rwa [Array.length_toList, textOf, List.length_map] at hle
      have hfew : bytes.size ≤ maxCodeSize := by omega
      refine ⟨bytes, sees_of_load (run_loadCode_text hfile hhex.1 hbytes hfew) hfew,
        ⟨fun heq => Or.inl ?_, fun h => ?_⟩, fun _ => ⟨hdenotes, hhalf⟩⟩
      · -- bytes that are half as many as themselves are none
        rw [heq, List.size_toArray] at hhalf
        exact List.eq_nil_of_length_eq_zero (by omega)
      · obtain rfl := h.resolve_right (fun hnot => hnot hhex)
        exact Array.eq_empty_of_size_eq_zero (by simpa using hhalf)
    · exact ⟨code.toArray, sees_of_load (run_loadCode_raw hfile hhex) hsize,
        ⟨fun _ => Or.inr hhex, fun _ => rfl⟩, fun h => absurd h hhex⟩
  · intro stdin input path mode s s' result hpath hrun
    obtain ⟨m, code, hassembles, hresult, hfile⟩ :=
      (ensures_performAssemble stdin input mode hpath).of_ok hrun
    refine ⟨m, code, hassembles, ?_, hresult, hfile⟩
    rintro asked rfl
    exact hassembles.mode_of_some

namespace Sample

/-- A session with code in a file that reads as hexadecimal text. -/
def hexLike : Session where
  files := ⟨[(⟨.working, ["sizes.bin"]⟩, .file #[0x36, 0x36])]⟩

/-- The code asks twice for the size of the input. -/
theorem assemble_hexLike :
    (performAssemble "CALLDATASIZE\nCALLDATASIZE\n" "-" (some "sizes.bin") (some .immediate)).run {} =
      .ok (assembled .immediate [0x36, 0x36]) hexLike := by
  rfl

theorem file?_hexLike : hexLike.files.file? (.ofText "sizes.bin") = .ok (some #[0x36, 0x36]) := by
  rfl

/-- A session with code in a file that reads as nothing else. -/
def plain : Session where
  files := ⟨[(⟨.working, ["stop.bin"]⟩, .file #[0x00])]⟩

theorem assemble_plain :
    (performAssemble "STOP" "-" (some "stop.bin") (some .immediate)).run {} =
      .ok (assembled .immediate [0x00]) plain := by
  rfl

end Sample

theorem sees_code_of_file_samples :
    (∃ bytes, Sees Sample.hexLike "sizes.bin" bytes ∧ 2 * bytes.size ≤ 2) ∧
    Sees Sample.plain "stop.bin" #[0x00] ∧
    Assembles {} "STOP" "-" (some .immediate) .immediate [0x00] := by
  obtain ⟨hfiles, hassembles⟩ := sees_code_of_file
  have hhexLike : ReadsAsHex [0x36, 0x36] :=
    ⟨by decide +kernel, isSome_hexBytes?_iff.1 (by decide +kernel)⟩
  have hplain : ¬ ReadsAsHex [0x00] :=
    fun h => absurd (isSome_hexBytes?_iff.2 h.2) (by decide +kernel)
  have hfew : ∀ n ≤ 2, n ≤ maxCodeSize := fun n hn => le_trans hn (by norm_num [maxCodeSize])
  obtain ⟨bytes, hsees, -, hhalf⟩ := hfiles [0x36, 0x36] Sample.hexLike "sizes.bin"
    (hfew 2 (by decide)) Sample.file?_hexLike
  obtain ⟨bytes', hsees', hback, -⟩ := hfiles [0x00] Sample.plain "stop.bin"
    (hfew 1 (by decide)) rfl
  obtain rfl := hback.2 (Or.inr hplain)
  obtain ⟨m, code, hcode, hmode, -, hfile⟩ :=
    hassembles "STOP" "-" "stop.bin" (some .immediate) {} _ _ (by decide) Sample.assemble_plain
  obtain rfl : [0x00] = code := by
    have hplainFile : Sample.plain.files.file? (.ofText "stop.bin") = .ok (some #[0x00]) := rfl
    simpa [hplainFile, eq_comm] using hfile
  obtain rfl := hmode .immediate rfl
  exact ⟨⟨bytes, hsees, (hhalf hhexLike).2⟩, hsees', hcode⟩

/-- Code that was assembled to a file does not come back: its two bytes are the digits of one. -/
theorem loadCode_hexLike :
    Assembler.assemble .immediate
        [.instruction "CALLDATASIZE" none, .instruction "CALLDATASIZE" none] =
      .ok [0x36, 0x36] ∧
    (performAssemble "CALLDATASIZE\nCALLDATASIZE\n" "-" (some "sizes.bin") (some .immediate)).run {} =
      .ok (assembled .immediate [0x36, 0x36]) Sample.hexLike ∧
    (loadCode "sizes.bin").run Sample.hexLike = .ok #[0x66] Sample.hexLike ∧
    (loadCode "sizes.bin").run Sample.hexLike ≠ .ok #[0x36, 0x36] Sample.hexLike := by
  have hbytes : hexBytes? (textOf [0x36, 0x36]) = some #[0x66] := by decide +kernel
  have hload := run_loadCode_text Sample.file?_hexLike (by decide +kernel) hbytes
    (by norm_num [maxCodeSize])
  refine ⟨rfl, Sample.assemble_hexLike, hload, ?_⟩
  rw [hload]
  simp

end FlowCheck.Command
