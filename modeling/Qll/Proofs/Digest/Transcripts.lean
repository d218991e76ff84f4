import Mathlib.Data.List.Basic
import Qll.Command.Desk
import Qll.Command.Program
import Qll.Proofs.Text.Utf8

/-!
# Transcripts tell the files

What is digested of some files is one sequence of bytes, and it can be taken apart again: a path ends
at the first zero byte, the digits of a length end at the next one, and the length says where the
content ends. So no content can pass for a further file. A watch compares digests of transcripts, and
where it does not compile again the inputs hold what they held when it looked at them last.
-/

namespace Qll.Digest

/-! ## Taking transcripts apart -/

/-- No digit of a number is a zero byte. -/
theorem zero_notMem_digits (n : Nat) : 0 ∉ Text.toBytes (Nat.repr n) := by
  rw [Text.toBytes_eq, Nat.toList_repr, List.mem_flatMap]
  rintro ⟨c, hc, hzero⟩
  have hdigit : 48 ≤ c.val.toNat ∧ c.val.toNat ≤ 57 := by
    simpa [Char.isDigit, UInt32.le_iff_toNat_le] using
      Nat.isDigit_of_mem_toDigits (by decide) (by decide) hc
  have hone : String.utf8EncodeChar c = [UInt8.ofNat c.val.toNat] := by
    rw [String.utf8EncodeChar, if_pos (by omega)]
  rw [hone, List.mem_singleton] at hzero
  have hbyte : 0 = c.val.toNat % 2 ^ 8 := by
    rw [← UInt8.toNat_ofNat', ← hzero]
    rfl
  omega

/-- What comes before the first zero byte is known, and so is what comes after it. -/
theorem append_zero_cons_inj {a b rest rest' : List UInt8} (ha : 0 ∉ a) (hb : 0 ∉ b)
    (h : a ++ 0 :: rest = b ++ 0 :: rest') : a = b ∧ rest = rest' := by
  obtain ⟨more, hmore, htail⟩ | ⟨more, hmore, htail⟩ := List.append_eq_append_iff.1 h
  all_goals
    cases more with
    | nil => simp_all
    | cons byte more =>
      rw [List.cons_append] at htail
      obtain ⟨rfl, -⟩ := List.cons.inj htail
      simp [hmore] at ha hb

/-- A number is known from the bytes of its digits. -/
theorem repr_inj {n n' : Nat} (h : Text.toBytes (Nat.repr n) = Text.toBytes (Nat.repr n')) : n = n' := by
  have hdigits : Nat.toDigits 10 n = Nat.toDigits 10 n' := by
    rw [← Nat.toList_repr, ← Nat.toList_repr, ← Text.ofBytes_toBytes n.repr, h, Text.ofBytes_toBytes]
  rw [← Nat.ofDigitChars_toDigits (by decide : 1 < 10) (by decide) (n := n), hdigits,
    Nat.ofDigitChars_toDigits (by decide) (by decide)]

/-- The digits of a length and what they are the length of, with more behind. -/
theorem counted_append_inj {c c' more more' : List UInt8}
    (h : Text.toBytes (Nat.repr c.length) ++ 0 :: (c ++ more) =
      Text.toBytes (Nat.repr c'.length) ++ 0 :: (c' ++ more')) : c = c' ∧ more = more' := by
  obtain ⟨hdigits, hrest⟩ :=
    append_zero_cons_inj (zero_notMem_digits _) (zero_notMem_digits _) h
  exact List.append_inj hrest (repr_inj hdigits)

/-- The first entry of a transcript is known from the whole. -/
theorem entry_append_inj {p p' c c' more more' : List UInt8} (hp : 0 ∉ p) (hp' : 0 ∉ p')
    (h : entry p c ++ more = entry p' c' ++ more') : p = p' ∧ c = c' ∧ more = more' := by
  simp only [entry, List.append_assoc, List.cons_append] at h
  obtain ⟨hpath, hrest⟩ := append_zero_cons_inj hp hp' h
  exact ⟨hpath, counted_append_inj hrest⟩

/-- A file always contributes something. -/
theorem transcript_cons_ne_nil (file : List UInt8 × List UInt8)
    (files : List (List UInt8 × List UInt8)) : transcript (file :: files) ≠ [] := by
  simp [transcript, entry]

/-- Paths in which no zero byte occurs. -/
def Unbroken (files : List (List UInt8 × List UInt8)) : Prop := ∀ file ∈ files, 0 ∉ file.1

/-- Files with one transcript are the same files in the same order. -/
theorem eq_of_transcript_eq {files files' : List (List UInt8 × List UInt8)} (hfiles : Unbroken files)
    (hfiles' : Unbroken files') (h : transcript files = transcript files') : files = files' := by
  induction files generalizing files' with
  | nil =>
    cases files' with
    | nil => rfl
    | cons file' rest' => exact absurd h.symm (transcript_cons_ne_nil file' rest')
  | cons file rest ih =>
    cases files' with
    | nil => exact absurd h (transcript_cons_ne_nil file rest)
    | cons file' rest' =>
      obtain ⟨hfile, hrest⟩ := List.forall_mem_cons.1 hfiles
      obtain ⟨hfile', hrest'⟩ := List.forall_mem_cons.1 hfiles'
      obtain ⟨hpath, hcontent, hmore⟩ := entry_append_inj hfile hfile' h
      rw [Prod.ext hpath hcontent, ih hrest hrest' hmore]

end Qll.Digest

namespace Qll.Command

open Digest (DigestError transcript sha256)

/-- What comes behind some work starts from where that work ends. -/
theorem run_bind_of_run {α β : Type} {x : DeskM α} {f : α → DeskM β} {d d' : Desk} {a : α}
    (h : x.run d = (a, d')) : (x >>= f).run d = (f a).run d' := by
  rw [StateT.run_bind, h]
  rfl

/-! ## What compiling does to the surroundings

A compilation keeps the settings of its session, and on standard error it adds to what was told. -/

section Telling

variable {α β : Type} {s : Session}

/-- Work that takes nothing back of what was told on standard error. -/
def Tells (x : DeskM α) : Prop := ∀ d : Desk, ∃ more, (x.run d).2.err = d.err ++ more

namespace Tells

/-- Work that takes nothing back may come behind work that does not either. -/
theorem bind {x : DeskM α} {f : α → DeskM β} (hx : Tells x) (hf : ∀ a, Tells (f a)) :
    Tells (x >>= f) := by
  intro d
  obtain ⟨more, hmore⟩ := hx d
  obtain ⟨rest, hrest⟩ := hf (x.run d).1 (x.run d).2
  exact ⟨more ++ rest, hrest.trans (by rw [hmore, String.append_assoc])⟩

/-- What leaves standard error as it is. -/
theorem quiet {x : DeskM α} (h : ∀ d, (x.run d).2.err = d.err) : Tells x :=
  fun d => ⟨"", (h d).trans String.append_empty.symm⟩

/-- Giving a result takes nothing back of what was told. -/
theorem pure (a : α) : Tells (Pure.pure a) := quiet fun _ => rfl

/-- Writing on the error stream takes nothing back of what was told. -/
theorem told (text : String) : Tells (Host.err (m := DeskM) text) := fun _ => ⟨text, rfl⟩

/-- Writing on the output takes nothing back of what was told. -/
theorem printed (bytes : List UInt8) : Tells (Host.out (m := DeskM) bytes) := quiet fun _ => rfl

/-- Work that may fail in between. -/
theorem bindExcept {x : ExceptT Failure DeskM α} {f : α → ExceptT Failure DeskM β} (hx : Tells x.run)
    (hf : ∀ a, Tells (f a).run) : Tells (x >>= f).run := by
  rw [ExceptT.run_bind]
  refine hx.bind fun result => ?_
  cases result with
  | ok a => exact hf a
  | error e => exact pure _

/-- Work that does not fail, among work that may. -/
theorem lift {x : DeskM α} (hx : Tells x) : Tells (ExceptT.lift (ε := Failure) x).run :=
  hx.bind fun _ => pure _

/-- Taking over the files as they are left takes nothing back of what was told. -/
theorem adopt (result : Except Files.FileError Files.Memory) : Tells (Desk.adopt result) :=
  quiet fun _ => by cases result <;> rfl

/-- Writing a file takes nothing back of what was told. -/
theorem write (path : String) (content : List UInt8) :
    Tells (Files.Disk.write (m := DeskM) path content) :=
  (quiet fun _ => rfl).bind fun _ => adopt _

/-- A file is written, and what follows depends on whether it could be. -/
theorem written {path : String} {content : List UInt8}
    {f : Except Files.FileError Unit → ExceptT Failure DeskM Unit} (herror : ∀ e, Tells (f (.error e)).run)
    (hok : Tells (f (.ok ())).run) :
    Tells (ExceptT.lift (Files.Disk.write (m := DeskM) path content) >>= f).run := by
  refine bindExcept (lift (write path content)) fun result => ?_
  cases result with
  | error e => exact herror e
  | ok => exact hok

/-- Making a directory takes nothing back of what was told. -/
theorem makeDirectory (path : String) : Tells (Files.Disk.makeDirectory (m := DeskM) path) :=
  (quiet fun _ => rfl).bind fun _ => adopt _

/-- Making the missing ones of some directories takes nothing back of what was told. -/
theorem makeMissing (paths : List String) : Tells (Files.makeMissing (m := DeskM) paths) := by
  induction paths with
  | nil => exact pure _
  | cons path rest ih =>
    refine (quiet fun _ => rfl).bind fun kind => ?_
    split
    · exact ih
    · exact pure _
    · refine (makeDirectory path).bind fun made => ?_
      split
      · exact pure _
      · exact ih

/-- Making a directory and those above it takes nothing back of what was told. -/
theorem makeDirectories (path : String) : Tells (Files.makeDirectories (m := DeskM) path) :=
  makeMissing _

/-- A condition for one step before the rest. -/
theorem when {c : Prop} [Decidable c] {x : ExceptT Failure DeskM Unit}
    {f : Unit → ExceptT Failure DeskM β} (hx : Tells x.run) (hf : ∀ a, Tells (f a).run) :
    Tells (if c then x >>= f else f ()).run := by
  split
  · exact bindExcept hx hf
  · exact hf ()

end Tells

/-! ### Reading and running -/

/-- Loading a unit takes nothing back of what was told. -/
theorem tells_loadUnit (path : String) : Tells (loadUnit (m := DeskM) path) := by
  refine (Tells.quiet fun _ => rfl).bind fun read => ?_
  split
  · split <;> exact .pure _
  · split <;> exact .pure _

/-- Loading units takes nothing back of what was told. -/
theorem tells_loadUnits (paths : List String) : Tells (loadUnits (m := DeskM) paths) := by
  induction paths with
  | nil => exact .pure _
  | cons path rest ih =>
    refine (tells_loadUnit path).bind fun unit => ?_
    split
    · exact .pure _
    · refine ih.bind fun units => ?_
      split <;> exact .pure _

/-- Running the stages of a compilation takes nothing back of what was told. -/
theorem tells_runStages (r : Compilation.Run) (stages : List Compilation.Stage) :
    Tells (runStages (m := DeskM) r stages) := by
  induction stages generalizing r with
  | nil => exact .pure _
  | cons stage rest ih =>
    refine (Tells.quiet fun _ => rfl).bind fun start => ?_
    dsimp only
    split
    · exact (Tells.quiet fun _ => rfl).bind fun finish => ih _
    · exact (Tells.pure start).bind fun finish => ih _

/-- Running the compilations of units takes nothing back of what was told. -/
theorem tells_runUnits (units : List Interchange.LoadedUnit) (parent : Nat) :
    Tells (runUnits (m := DeskM) s units parent) := by
  refine (Tells.quiet fun _ => rfl).bind fun cancelled => ?_
  refine (tells_runStages _ _).bind fun run => ?_
  refine (Tells.quiet fun _ => rfl).bind fun terminal => ?_
  split
  · exact (Tells.quiet fun _ => rfl).bind fun _ => .pure _
  · exact .pure _

/-! ### Reporting -/

/-- Printing diagnostics takes nothing back of what was told. -/
theorem tells_printDiagnostics (bag : Diagnostic.Bag) :
    Tells (printDiagnostics (m := DeskM) s bag) := by
  unfold printDiagnostics
  split
  · exact .printed _
  · exact .pure _

/-- Reporting an internal error takes nothing back of what was told. -/
theorem tells_reportInternal (recorder : Trace.Recorder) (ending : Compilation.Ending) :
    Tells (reportInternal (m := DeskM) s recorder ending) := by
  refine (Tells.told _).bind fun _ => ?_
  split
  · exact .told _
  · exact .pure _

/-- Writing the output takes nothing back of what was told. -/
theorem tells_writeOutput (ds : List Assembly.Directive) :
    Tells (writeOutput (m := DeskM) s ds).run := by
  unfold writeOutput
  dsimp only
  split
  · exact .lift (.printed _)
  · split
    · refine Tells.bindExcept (.lift (.makeDirectories _)) fun made => ?_
      split
      · exact Tells.bindExcept (.pure _) fun _ => .written (fun _ => .pure _) (.pure _)
      · exact .written (fun _ => .pure _) (.pure _)
    · exact .written (fun _ => .pure _) (.pure _)

/-- Telling something of each of some names takes nothing back of what was told. -/
theorem tells_forM (names : List String) (tell : String → ExceptT Failure DeskM Unit)
    (h : ∀ name, Tells (tell name).run) : Tells (names.forM tell).run := by
  induction names with
  | nil => exact .pure _
  | cons name rest ih => exact Tells.bindExcept (h name) fun _ => ih

/-- Reporting on a run takes nothing back of what was told. -/
theorem tells_reportRun (r : Compilation.Run) : Tells (reportRun (m := DeskM) s r).run := by
  unfold reportRun
  split
  · exact Tells.bindExcept (.lift (tells_reportInternal _ _)) fun _ => .pure _
  · exact .pure _
  · refine Tells.bindExcept (.lift (tells_printDiagnostics _)) fun _ => ?_
    refine Tells.when (.lift (.told _)) fun _ => ?_
    dsimp only
    split
    · exact .pure _
    · refine Tells.when (tells_forM _ _ fun name => .lift (.told _)) fun _ => ?_
      refine Tells.when (tells_writeOutput _) fun _ => ?_
      exact Tells.when (.lift (.told _)) fun _ => .pure _

/-- Work by which a session goes on with its settings, and which takes nothing back of what was told. -/
def GoesOn (s : Session) (x : DeskM (Session × Except Failure Nat)) : Prop :=
  Tells x ∧ ∀ d : Desk, (x.run d).1.1.settings = s.settings

/-- Work that goes on with the settings may come behind work that takes nothing back. -/
theorem Tells.goesOn {x : DeskM α} {f : α → DeskM (Session × Except Failure Nat)} (hx : Tells x)
    (hf : ∀ a, GoesOn s (f a)) : GoesOn s (x >>= f) :=
  ⟨hx.bind fun a => (hf a).1, fun _ => (hf _).2 _⟩

/-- A result with the same settings goes on with them. -/
theorem goesOn_pure {s' : Session} (h : s'.settings = s.settings) (result : Except Failure Nat) :
    GoesOn s (pure (s', result)) := ⟨.pure _, fun _ => h⟩

/-- The end of a compilation: the clock is read, and a trace may be shown. -/
theorem goesOn_end {shown : Nat → Prop} [DecidablePred shown] {text : Nat → String}
    {after after' : Nat → Session} (h : ∀ finish, (after finish).settings = s.settings)
    (h' : ∀ finish, (after' finish).settings = s.settings) (result : Except Failure Nat) :
    GoesOn s (do
      let finish ← Host.clock
      if shown finish then
        Host.log (text finish)
        return (after finish, result)
      else return (after' finish, result)) := by
  refine Tells.goesOn (.quiet fun _ => rfl) fun finish => ?_
  split
  · exact Tells.goesOn (.quiet fun _ => rfl) fun _ => goesOn_pure (h finish) result
  · exact goesOn_pure (h' finish) result

/-- A compilation goes on with the settings of its session. -/
theorem goesOn_compileOnce (s : Session) : GoesOn s (compileOnce s) := by
  unfold compileOnce
  refine Tells.goesOn (.quiet fun _ => rfl) fun start => ?_
  refine Tells.goesOn (.quiet fun _ => rfl) fun cancelled => ?_
  dsimp only
  split
  -- called off or not, the units are there or they are not
  all_goals
    refine Tells.goesOn ?_ fun units => ?_
    · first | exact .pure _ | exact tells_loadUnits _
    · split
      · refine Tells.goesOn (tells_printDiagnostics _) fun _ => ?_
        exact Tells.goesOn (.pure _) fun _ => goesOn_end (by intro; rfl) (by intro; rfl) _
      · refine Tells.goesOn (tells_runUnits _ _) fun run => ?_
        refine Tells.goesOn (tells_reportRun run) fun result => ?_
        exact Tells.goesOn (.pure _) fun _ => goesOn_end (by intro; rfl) (by intro; rfl) _

end Telling

/-! ## Looking at the inputs -/

/-- What comes of reading files: their paths and contents, or the first one that cannot be read. -/
abbrev Reading := Except DigestError (List (List UInt8 × List UInt8))

section Looking

variable {α β : Type} {P : α → Prop} {Q : β → Prop} {s : Session} {d : Desk}

/-- Work that leaves the surroundings as they are, answers as `P` says, and does not ask what was
told. -/
structure Looks (P : α → Prop) (x : DeskM α) : Prop where
  stays : ∀ d : Desk, (x.run d).2 = d
  answer : ∀ d : Desk, P (x.run d).1
  told : ∀ (d : Desk) (text : String), (x.run { d with err := text }).1 = (x.run d).1

/-- Work that only looks may come behind work that only looks, and may use what that has found. -/
theorem Looks.bind {x : DeskM α} {f : α → DeskM β} (hx : Looks P x) (hf : ∀ a, P a → Looks Q (f a)) :
    Looks Q (x >>= f) := by
  refine ⟨fun d => ?_, fun d => (hf _ (hx.answer d)).answer _, fun d text => ?_⟩
  · exact ((hf _ (hx.answer d)).stays _).trans (hx.stays d)
  · change ((f (x.run { d with err := text }).1).run (x.run { d with err := text }).2).1 =
      ((f (x.run d).1).run (x.run d).2).1
    rw [hx.told, hx.stays, hx.stays, (hf _ (hx.answer d)).told]

/-- Giving a result only looks. -/
theorem Looks.pure {a : α} (h : P a) : Looks P (Pure.pure a) :=
  ⟨fun _ => rfl, fun _ => h, fun _ _ => rfl⟩

/-- The files of a list of paths, if all of them can be read. -/
def OfPaths (paths : List String) (result : Reading) : Prop :=
  ∀ files, result = .ok files → files.map Prod.fst = paths.map Text.toBytes

/-- Reading some paths gives the content of each of them, and only looks. -/
theorem looks_contents (paths : List String) :
    Looks (OfPaths paths) (Digest.contents (m := DeskM) paths) := by
  induction paths with
  | nil =>
    refine .pure ?_
    rintro files ⟨⟩
    rfl
  | cons path rest ih =>
    have hread : Looks (fun _ => True) (Files.Disk.read (m := DeskM) path) :=
      ⟨fun _ => rfl, fun _ => trivial, fun _ _ => rfl⟩
    refine hread.bind fun read _ => ?_
    split
    · exact .pure fun _ h => nomatch h
    · refine ih.bind fun read hread => ?_
      split
      · exact .pure fun _ h => nomatch h
      · refine .pure ?_
        rintro files ⟨⟩
        rw [List.map_cons, List.map_cons, hread _ rfl]

/-- The paths and contents of the inputs of a session, or the first one that cannot be read. -/
def Desk.look (d : Desk) (s : Session) : Reading :=
  ((Digest.contents (m := DeskM) s.settings.inputs).run d).1

/-- The digest of what was read. -/
def digestOf (seen : Reading) : Option (List UInt8) :=
  (seen.map fun files => sha256 (transcript files)).toOption

/-- The digest of the inputs is that of what is read of them, and reading them leaves the desk as it is. -/
theorem run_inputDigest (s : Session) (d : Desk) :
    (inputDigest (m := DeskM) s).run d = (digestOf (d.look s), d) := by
  have hlook : (Digest.contents (m := DeskM) s.settings.inputs).run d = (d.look s, d) :=
    Prod.ext rfl ((looks_contents _).stays d)
  change (do
    let seen ← Digest.contents (m := DeskM) s.settings.inputs
    return digestOf seen : DeskM (Option (List UInt8))).run d = _
  rw [StateT.run_bind, hlook]
  rfl

/-- What is told does not change what is read. -/
theorem look_told (text : String) : { d with err := text }.look s = d.look s :=
  (looks_contents _).told d text

end Looking

/-! ## Watches -/

/-- A reaction that compiles again says so first. -/
def Announces (d d' : Desk) : Prop :=
  ∃ more, d'.err = d.err ++ ("\n" ++ d.timeOfDay ++ " rebuilding\n" ++ more)

/-- An announcement changes the desk. -/
theorem Announces.ne {d d' : Desk} (h : Announces d d') : d' ≠ d := by
  rintro rfl
  obtain ⟨more, hmore⟩ := h
  have := congrArg String.length hmore
  simp at this

/-- A watch at work, and what its inputs held when it looked at them last: at the beginning, and since
then each time it compiled again. Between two reactions anything may happen to the files. -/
inductive Watched : Watch → Reading → Prop
  | started {g s d w d'} (h : (startWatch (m := DeskM) g s).run d = (.ok w, d')) :
    Watched w (d'.look w.session)
  | rested {w seen touched d w'} (hw : Watched w seen)
    (h : (w.react (m := DeskM) touched).run d = ((w', none), d)) : Watched w' seen
  | rebuilt {w seen touched d w' d'} (hw : Watched w seen)
    (h : (w.react (m := DeskM) touched).run d = ((w', none), d')) (hsaid : Announces d d') :
    Watched w' (d.look w.session)

/-- What a watch knows of its inputs is what it saw of them last. -/
structure Watch.Recalls (w : Watch) (seen : Reading) : Prop where
  digest : w.digest = digestOf seen
  paths : OfPaths w.session.settings.inputs seen

/-- A watch begins with the digest of what its inputs hold. -/
theorem recalls_startWatch {g : Given} {s : Session} {d d' : Desk} {w : Watch}
    (h : (startWatch (m := DeskM) g s).run d = (.ok w, d')) : w.Recalls (d'.look w.session) := by
  unfold startWatch at h
  dsimp only at h
  cases hcompiled : (compileOnce (m := DeskM)
      { s with settings := { s.settings with progress := .off } }).run d with
  | mk answer compiled =>
    obtain ⟨session, failure | exit⟩ := answer
    · rw [run_bind_of_run hcompiled] at h
      nomatch congrArg Prod.fst h
    · have hpaths : (absolutePaths (m := DeskM) session.settings.inputs).run compiled =
        (_, compiled) := rfl
      rw [run_bind_of_run hcompiled, run_bind_of_run hpaths, run_bind_of_run (run_inputDigest _ _)] at h
      cases h
      exact ⟨congrArg digestOf (look_told _).symm, (looks_contents _).answer _⟩

section Reacting

variable {w : Watch} {touched : List String} {d : Desk}

/-- What a watch does where something happened to an input. -/
theorem run_react (ht : touched.any w.paths.contains = true) :
    (w.react (m := DeskM) touched).run d =
      (if (digestOf (d.look w.session)).isSome && digestOf (d.look w.session) == w.digest then
        pure (w, none)
      else do
        Host.err ("\n" ++ (← Host.timeOfDay) ++ " rebuilding\n")
        match ← compileOnce w.session with
        | (session, .ok _) => return ({ w with session, digest := digestOf (d.look w.session) }, none)
        | (session, .error failure) =>
          return ({ w with session, digest := digestOf (d.look w.session) }, some failure) :
        DeskM (Watch × Option Failure)).run d := by
  unfold Watch.react
  rw [ht]
  simp only [Bool.not_true, Bool.false_eq_true, if_false]
  rw [StateT.run_bind, run_inputDigest]
  rfl

/-- Where nothing happened to an input, a watch does nothing. -/
theorem react_of_untouched (ht : ¬ touched.any w.paths.contains = true) :
    (w.react (m := DeskM) touched).run d = ((w, none), d) := by
  unfold Watch.react
  rw [Bool.not_eq_true _ |>.mp ht]
  rfl

/-- Where the digest of the inputs is the same, a watch does nothing. -/
theorem react_of_same (ht : touched.any w.paths.contains = true)
    (hsome : (digestOf (d.look w.session)).isSome = true) (hsame : digestOf (d.look w.session) = w.digest) :
    (w.react (m := DeskM) touched).run d = ((w, none), d) := by
  rw [run_react ht, if_pos (by simpa [← hsame] using hsome)]
  rfl

/-- Otherwise it compiles again, and takes over the digest. -/
theorem react_of_other (ht : touched.any w.paths.contains = true)
    (h : ¬ ((digestOf (d.look w.session)).isSome = true ∧ digestOf (d.look w.session) = w.digest)) :
    ∃ session failure d', session.settings = w.session.settings ∧ Announces d d' ∧
      (w.react (m := DeskM) touched).run d =
        (({ w with session, digest := digestOf (d.look w.session) }, failure), d') := by
  let said : Desk := { d with err := d.err ++ ("\n" ++ d.timeOfDay ++ " rebuilding\n") }
  obtain ⟨htells, hsettings⟩ := goesOn_compileOnce w.session
  obtain ⟨more, hmore⟩ := htells said
  specialize hsettings said
  cases hrun : (compileOnce (m := DeskM) w.session).run said with
  | mk answer d' =>
    obtain ⟨session, result⟩ := answer
    rw [hrun] at hmore hsettings
    have htime : (Host.timeOfDay (m := DeskM)).run d = (d.timeOfDay, d) := rfl
    have hsay : (Host.err (m := DeskM) ("\n" ++ d.timeOfDay ++ " rebuilding\n")).run d =
      ((), said) := rfl
    have hsaid : Announces d d' := ⟨more, hmore.trans (String.append_assoc ..)⟩
    cases result with
    | ok exit =>
      refine ⟨session, none, d', hsettings, hsaid, ?_⟩
      rw [run_react ht, if_neg (by simpa using h), run_bind_of_run htime, run_bind_of_run hsay,
        run_bind_of_run hrun]
      rfl
    | error failure =>
      refine ⟨session, some failure, d', hsettings, hsaid, ?_⟩
      rw [run_react ht, if_neg (by simpa using h), run_bind_of_run htime, run_bind_of_run hsay,
        run_bind_of_run hrun]
      rfl

/-- A watch does nothing, or it compiles again. -/
theorem react_cases (w : Watch) (touched : List String) (d : Desk) :
    (w.react (m := DeskM) touched).run d = ((w, none), d) ∨
      ∃ session failure d', session.settings = w.session.settings ∧ Announces d d' ∧
        (w.react (m := DeskM) touched).run d =
          (({ w with session, digest := digestOf (d.look w.session) }, failure), d') := by
  by_cases ht : touched.any w.paths.contains = true
  · by_cases hsame : (digestOf (d.look w.session)).isSome = true ∧ digestOf (d.look w.session) = w.digest
    · exact .inl (react_of_same ht hsame.1 hsame.2)
    · exact .inr (react_of_other ht hsame)
  · exact .inl (react_of_untouched ht)

end Reacting

/-- At any time a watch recalls what it saw last. -/
theorem Watched.recalls {w : Watch} {seen : Reading}
    (hw : Watched w seen) : w.Recalls seen := by
  induction hw with
  | started h => exact recalls_startWatch h
  | @rested w seen touched d w' hw h ih =>
    obtain hrun | ⟨session, failure, d', -, hsaid, hrun⟩ := react_cases w touched d
    · rw [hrun] at h
      cases h
      exact ih
    · rw [hrun] at h
      cases h
      exact absurd rfl hsaid.ne
  | @rebuilt w seen touched d w' d' hw h hsaid ih =>
    obtain hrun | ⟨session, failure, after, hsettings, -, hrun⟩ := react_cases w touched d
    · rw [hrun] at h
      cases h
      exact absurd rfl hsaid.ne
    · rw [hrun] at h
      cases h
      refine ⟨rfl, ?_⟩
      rw [hsettings]
      exact (looks_contents _).answer d

/-- Whether the inputs could be read both times and are the same. -/
def Unchanged (seen now : Reading) : Prop :=
  ∃ files, seen = .ok files ∧ now = .ok files

/-- There is a digest exactly of files that were read. -/
theorem digestOf_eq_some {seen : Reading} {digest : List UInt8}
    (h : digestOf seen = some digest) : ∃ files, seen = .ok files ∧ sha256 (transcript files) = digest := by
  cases seen with
  | error e => nomatch h
  | ok files => exact ⟨files, rfl, Option.some.inj h⟩

/-- Paths without zero bytes leave names without zero bytes. -/
theorem unbroken_ofPaths {paths : List String} {files : List (List UInt8 × List UInt8)}
    (hpaths : ∀ path ∈ paths, 0 ∉ Text.toBytes path) (h : files.map Prod.fst = paths.map Text.toBytes) :
    Digest.Unbroken files := by
  intro file hfile
  have hmem : file.1 ∈ paths.map Text.toBytes := h ▸ List.mem_map_of_mem hfile
  obtain ⟨path, hpath, hbytes⟩ := List.mem_map.1 hmem
  exact hbytes ▸ hpaths path hpath

/-- The paths and contents of files are known from what is digested of them, however contents look and
however many files there are. So as long as the digests of two transcripts tell them apart, a watch to
whose inputs something happened leaves the build as it is exactly if the inputs could be read when it
looked at them last and hold the same now. -/
theorem transcripts_unambiguous :
    (∀ files files' : List (List UInt8 × List UInt8), (∀ file ∈ files, 0 ∉ file.1) →
      (∀ file ∈ files', 0 ∉ file.1) → transcript files = transcript files' → files = files') ∧
    (∀ (w : Watch) (seen : Reading) (d : Desk) (touched : List String), Watched w seen →
      (∀ path ∈ w.session.settings.inputs, 0 ∉ Text.toBytes path) →
      (∀ files files', seen = .ok files → d.look w.session = .ok files' →
        sha256 (transcript files) = sha256 (transcript files') →
        transcript files = transcript files') →
      touched.any w.paths.contains = true →
      ((w.react (m := DeskM) touched).run d = ((w, none), d) ↔ Unchanged seen (d.look w.session)) ∧
      (Announces d ((w.react (m := DeskM) touched).run d).2 ↔
        ¬ Unchanged seen (d.look w.session))) := by
  refine ⟨fun _ _ => Digest.eq_of_transcript_eq, fun w seen d touched hw hpaths hapart ht => ?_⟩
  obtain ⟨hdigest, hseen⟩ := hw.recalls
  by_cases hsame : (digestOf (d.look w.session)).isSome = true ∧
      digestOf (d.look w.session) = w.digest
  · have hrun := react_of_same ht hsame.1 hsame.2
    have hsilent : ¬ Announces d ((w.react (m := DeskM) touched).run d).2 :=
      fun h => h.ne (by rw [hrun])
    have hunchanged : Unchanged seen (d.look w.session) := by
      obtain ⟨digest, hnow⟩ := Option.isSome_iff_exists.1 hsame.1
      obtain ⟨files', hfiles', hdigest'⟩ := digestOf_eq_some hnow
      obtain ⟨files, hfiles, hdigest⟩ :=
        digestOf_eq_some (hdigest.symm.trans (hsame.2.symm.trans hnow))
      have heq : files = files' := Digest.eq_of_transcript_eq
        (unbroken_ofPaths hpaths (hseen files hfiles))
        (unbroken_ofPaths hpaths ((looks_contents _).answer d files' hfiles'))
        (hapart files files' hfiles hfiles' (hdigest.trans hdigest'.symm))
      exact ⟨files, hfiles, heq ▸ hfiles'⟩
    exact ⟨iff_of_true hrun hunchanged, iff_of_false hsilent (not_not_intro hunchanged)⟩
  · obtain ⟨session, failure, d', -, hsaid, hrun⟩ := react_of_other ht hsame
    have hchanged : ¬ Unchanged seen (d.look w.session) := by
      rintro ⟨files, hfiles, hnow⟩
      rw [hnow, hdigest, hfiles] at hsame
      exact hsame ⟨rfl, rfl⟩
    have hruns : (w.react (m := DeskM) touched).run d ≠ ((w, none), d) := by
      rw [hrun]
      exact fun h => hsaid.ne (congrArg Prod.snd h)
    rw [hrun] at hruns ⊢
    exact ⟨iff_of_false hruns hchanged, iff_of_true hsaid hchanged⟩

/-- A watch over one file, which is no unit but can be read, rests as long as the file stays. -/
theorem transcripts_unambiguous_one_input :
    [(Text.toBytes "/a", [0x31])] = [([0x2f, 0x61], [(0x31 : UInt8)])] ∧
    ∃ w d, Watched w (d.look w.session) ∧ w.paths = ["/a"] ∧
      (w.react (m := DeskM) ["/a"]).run d = ((w, none), d) := by
  have hpath : Text.toBytes "/a" = [0x2f, 0x61] := by decide +kernel
  refine ⟨transcripts_unambiguous.1 _ _ (by simp [hpath]) (by simp) (by rw [hpath]), ?_⟩
  let session : Session :=
    { verb := .watch,
      settings := { inputs := ["/a"], options := {}, output := "", format := .text, emitLive := false,
                    diagnostics := .short, quiet := true, timings := false, progress := .off },
      color := false, recorder := {}, tracePath := "" }
  let desk : Desk := { memory := { files := [(["a"], [0x31])] } }
  have hbegun : ((startWatch (m := DeskM) [] session).run desk).1.toOption.map
      (fun w => (w.paths, w.session.settings.inputs)) = some (["/a"], ["/a"]) := by decide +kernel
  have hread : (((startWatch (m := DeskM) [] session).run desk).2.look session).toOption =
      some [([0x2f, 0x61], [0x31])] := by decide +kernel
  cases hrun : (startWatch (m := DeskM) [] session).run desk with
  | mk answer d =>
    rw [hrun] at hbegun hread
    cases answer with
    | error failure => nomatch hbegun
    | ok w =>
      obtain ⟨hpaths, hinputs⟩ := Prod.mk.inj (Option.some.inj hbegun)
      obtain ⟨files, hlook⟩ : ∃ files, d.look w.session = .ok files := by
        have hsame : d.look w.session = d.look session := by
          rw [Desk.look, hinputs]
          rfl
        rw [hsame]
        cases hd : d.look session with
        | error e => nomatch hd ▸ hread
        | ok files => exact ⟨files, rfl⟩
      refine ⟨w, d, .started hrun, hpaths, ?_⟩
      refine (transcripts_unambiguous.2 w _ d ["/a"] (.started hrun) ?_ ?_ ?_).1.2
        ⟨files, hlook, hlook⟩
      · simp [hinputs, hpath]
      · rintro before now hbefore hnow -
        rw [Except.ok.inj (hbefore.symm.trans hnow)]
      · simp [hpaths]

end Qll.Command
