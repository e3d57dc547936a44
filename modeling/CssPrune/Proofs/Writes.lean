import CssPrune.Files.Memory
import CssPrune.Proofs.FileReads
import CssPrune.Proofs.Targets

/-!
# Writing outputs

Outputs are written one after the other up to the first that is refused (`run_writeOutputs`). What
the files hold then is said once for all file systems: a `FileView` tells what each file holds and
which file a path leads to, `LawfulWrites` what a single write does to that, and from these a file
holds the text of the last output whose target leads to it, or what it held before
(`FileAccess.Writings.contents`). With files in memory every path leads to a file of its own, and no
two outputs of a run have the same target, so that no output is lost (`writeOutputs_in_memory`).
-/

namespace CssPrune

/-- What files hold, and which file a path leads to. -/
structure FileView (σ φ κ : Type) where
  contents : σ → φ → Option κ
  leadsTo : σ → String → Option φ
  /-- What a file holds after some bytes were written to it. -/
  stored : ByteArray → κ

namespace FileView

variable {σ φ κ : Type} [DecidableEq φ] (view : FileView σ φ κ) (state : σ)

/-- The last of some outputs whose target leads to a file. -/
def lastOutput? (outputs : List Output) (file : φ) : Option Output :=
  (outputs.filter fun output => view.leadsTo state output.target = some file).getLast?

/-- What a file holds after some outputs were written: the last text that was written to it, or
what it held before. -/
def contentsAfter (outputs : List Output) (file : φ) : Option κ :=
  match view.lastOutput? state outputs file with
  | some output => some (view.stored (Text.encode output.text))
  | none => view.contents state file

variable {view} {state}

/-- The first of some outputs shows only where no later one does. -/
lemma contentsAfter_cons {next : σ} {output : Output} {outputs : List Output} {file : φ}
    (hpaths : view.leadsTo next = view.leadsTo state)
    (hfile : view.contents next file =
      if view.leadsTo state output.target = some file then
        some (view.stored (Text.encode output.text))
      else view.contents state file) :
    view.contentsAfter next outputs file = view.contentsAfter state (output :: outputs) file := by
  rw [contentsAfter, contentsAfter, lastOutput?, lastOutput?, hpaths, List.filter_cons]
  by_cases hleads : view.leadsTo state output.target = some file
  · rw [if_pos hleads] at hfile
    rw [if_pos (decide_eq_true hleads), List.getLast?_cons]
    cases (outputs.filter fun output => view.leadsTo state output.target = some file).getLast? with
    | none => exact hfile
    | some last => rfl
  · rw [if_neg hleads] at hfile
    rw [if_neg (by simpa using hleads), hfile]

end FileView

namespace FileAccess

section Laws

variable {σ φ κ : Type} [DecidableEq φ]

/-- A write shows in the file that its path leads to, and in no other one. Where paths lead to stays
as it is. -/
structure LawfulWrites (files : FileAccess (StateM σ)) (view : FileView σ φ κ) : Prop where
  leadsTo : ∀ path bytes state,
    view.leadsTo ((files.write path bytes).run state).2 = view.leadsTo state
  written : ∀ {path bytes start next}, (files.write path bytes).run start = (.ok (), next) →
    ∀ file, view.contents next file =
      if view.leadsTo start path = some file then some (view.stored bytes)
      else view.contents start file
  refused : ∀ {path bytes start next failure},
    (files.write path bytes).run start = (.error failure, next) →
    ∀ file, view.leadsTo start path ≠ some file → view.contents next file = view.contents start file

end Laws

/-! ## Outputs one after the other -/

variable {σ : Type} {files : FileAccess (StateM σ)}

/-- Outputs are written one after the other, none of them refused. -/
inductive Writings (files : FileAccess (StateM σ)) : σ → List Output → σ → Prop where
  | done {state} : Writings files state [] state
  | written {start next last output outputs} :
    (files.write output.target (Text.encode output.text)).run start = (.ok (), next) →
    Writings files next outputs last →
    Writings files start (output :: outputs) last

/-- Writing ends: there are no more outputs, or the next one is refused. -/
inductive Ends (files : FileAccess (StateM σ)) :
    σ → List Output → Except FileError Unit → σ → Prop where
  | done {state} : Ends files state [] (.ok ()) state
  | refused {start next output outputs failure} :
    (files.write output.target (Text.encode output.text)).run start = (.error failure, next) →
    Ends files start (output :: outputs) (.error (.file output.target failure)) next

section Text

variable {start next : σ} {path : String} {text : Text}

/-- A text whose bytes are written is written. -/
lemma writeText_written (h : (files.write path (Text.encode text)).run start = (.ok (), next)) :
    (files.writeText path text).run start = (.ok (), next) := by
  rw [writeText, run_bind_of_run h]
  rfl

/-- A text whose bytes are refused fails with the path and the reason. -/
lemma writeText_refused {failure : FileFailure}
    (h : (files.write path (Text.encode text)).run start = (.error failure, next)) :
    (files.writeText path text).run start = (.error (.file path failure), next) := by
  rw [writeText, run_bind_of_run h]
  rfl

end Text

end FileAccess

open FileAccess

section Outputs

variable {σ : Type} (files : FileAccess (StateM σ))

/-- The first outputs are written, and the next one ends the writing. -/
lemma run_writeOutputs (outputs : List Output) (start : σ) :
    ∃ written rest middle result last, outputs = written ++ rest ∧
      files.Writings start written middle ∧ files.Ends middle rest result last ∧
      (writeOutputs files outputs).run start = (result, last) := by
  induction outputs generalizing start with
  | nil => exact ⟨[], [], start, .ok (), start, rfl, .done, .done, rfl⟩
  | cons output outputs ih =>
    rcases hwrite : (files.write output.target (Text.encode output.text)).run start with
      ⟨failure | ⟨⟩, next⟩
    · refine ⟨[], output :: outputs, start, _, next, rfl, .done, .refused hwrite, ?_⟩
      rw [writeOutputs, run_bind_of_run (writeText_refused hwrite)]
      rfl
    · obtain ⟨written, rest, middle, result, last, rfl, hwritten, hends, hrun⟩ := ih next
      refine ⟨output :: written, rest, middle, result, last, rfl, .written hwrite hwritten, hends,
        ?_⟩
      rw [writeOutputs, run_bind_of_run (writeText_written hwrite)]
      exact hrun

variable {files} in
/-- Writing is determined by what is written and by what ends it. -/
lemma FileAccess.Writings.run_eq {start middle last : σ} {written rest : List Output}
    {result : Except FileError Unit} (h : files.Writings start written middle)
    (hends : files.Ends middle rest result last) :
    (writeOutputs files (written ++ rest)).run start = (result, last) := by
  induction h with
  | done =>
    cases hends with
    | done => rfl
    | refused hwrite =>
      rw [List.nil_append, writeOutputs, run_bind_of_run (writeText_refused hwrite)]
      rfl
  | written hwrite _ ih =>
    rw [List.cons_append, writeOutputs, run_bind_of_run (writeText_written hwrite)]
    exact ih hends

end Outputs

namespace FileAccess

section Laws

variable {σ φ κ : Type} [DecidableEq φ] {files : FileAccess (StateM σ)} {view : FileView σ φ κ}
  {start last : σ} {outputs : List Output}

/-- A write leaves every path where it leads to. -/
lemma LawfulWrites.leadsTo_of_run (h : files.LawfulWrites view) {path : String} {bytes : ByteArray}
    {result : Except FileFailure Unit} {next : σ}
    (hrun : (files.write path bytes).run start = (result, next)) :
    view.leadsTo next = view.leadsTo start := by
  have hsame := h.leadsTo path bytes start
  rwa [hrun] at hsame

/-- Writes leave every path where it leads to. -/
lemma Writings.leadsTo (h : files.Writings start outputs last) (hlaws : files.LawfulWrites view) :
    view.leadsTo last = view.leadsTo start := by
  induction h with
  | done => rfl
  | written hwrite _ ih => exact ih.trans (hlaws.leadsTo_of_run hwrite)

/-- A file holds the last text that was written to it. -/
lemma Writings.contents (h : files.Writings start outputs last) (hlaws : files.LawfulWrites view)
    (file : φ) : view.contents last file = view.contentsAfter start outputs file := by
  induction h with
  | done => rfl
  | written hwrite _ ih =>
    rw [ih]
    exact FileView.contentsAfter_cons (hlaws.leadsTo_of_run hwrite) (hlaws.written hwrite file)

/-- After some outputs were written and the next one ended the writing, each file but that of the
refused output holds the last text that was written to it. -/
lemma Writings.contents_of_ends {middle : σ} {rest : List Output} {result : Except FileError Unit}
    (h : files.Writings start outputs middle) (hends : files.Ends middle rest result last)
    (hlaws : files.LawfulWrites view) {file : φ}
    (hfile : ∀ output ∈ rest.head?, view.leadsTo start output.target ≠ some file) :
    view.contents last file = view.contentsAfter start outputs file := by
  rw [← h.contents hlaws file]
  cases hends with
  | done => rfl
  | @refused _ output _ _ hwrite =>
    refine hlaws.refused hwrite file ?_
    rw [h.leadsTo hlaws]
    exact hfile output rfl

end Laws

end FileAccess

/-! ## Files in memory -/

namespace MemoryFiles

/-- Every path leads to a file of its own. -/
def view : FileView MemoryFiles String StoredFile where
  contents disk path := disk.files.get? path
  leadsTo _ path := some path
  stored := .bytes

variable {disk next last : MemoryFiles} {path : String} {bytes : ByteArray} {outputs : List Output}

/-- A write in memory stores the bytes at the path unless that is denied. -/
lemma run_write (disk : MemoryFiles) (path : String) (bytes : ByteArray) :
    (access.write path bytes).run disk =
      match disk.denied.get? path with
      | some message => (.error (.other message), disk)
      | none => (.ok (), { disk with files := disk.files.insert path (.bytes bytes) }) := by
  have hget : (get : StateM MemoryFiles MemoryFiles).run disk = (disk, disk) := rfl
  dsimp only [access]
  rw [run_bind_of_run hget, write]
  cases disk.denied.get? path with
  | some message => rfl
  | none => rfl

/-- A write that is refused changes nothing, and its path is denied. -/
lemma of_refused {failure : FileFailure}
    (h : (access.write path bytes).run disk = (.error failure, next)) :
    next = disk ∧ ∃ message, disk.denied.get? path = some message ∧ failure = .other message := by
  rw [run_write] at h
  cases hdenied : disk.denied.get? path with
  | some message =>
    rw [hdenied] at h
    cases h
    exact ⟨rfl, message, rfl, rfl⟩
  | none =>
    rw [hdenied] at h
    cases h

/-- A write that is done stores the bytes at a path that is not denied. -/
lemma of_written (h : (access.write path bytes).run disk = (.ok (), next)) :
    disk.denied.get? path = none ∧
      next = { disk with files := disk.files.insert path (.bytes bytes) } := by
  rw [run_write] at h
  cases hdenied : disk.denied.get? path with
  | some message =>
    rw [hdenied] at h
    cases h
  | none =>
    rw [hdenied] at h
    cases h
    exact ⟨rfl, rfl⟩

/-- Writes in memory are lawful. -/
lemma lawfulWrites_access : access.LawfulWrites view where
  leadsTo _ _ _ := rfl
  written {path bytes start next} h file := by
    obtain ⟨-, rfl⟩ := of_written h
    show (start.files.insert path _).get? file = _
    rw [OrderedMap.insert, OrderedMap.get?_update]
    by_cases hfile : file = path
    · subst hfile
      simp [view]
    · have hpath : ¬ path = file := fun heq => hfile heq.symm
      simp [view, hfile, hpath]
  refused {path bytes start next failure} h file _ := by
    obtain ⟨rfl, -⟩ := of_refused h
    rfl

/-- No output that was written was denied, and what is denied stays so. -/
lemma denied_of_writings (h : access.Writings disk outputs last) :
    last.denied = disk.denied ∧ ∀ output ∈ outputs, disk.denied.get? output.target = none := by
  induction h with
  | done => exact ⟨rfl, nofun⟩
  | written hwrite _ ih =>
    obtain ⟨hdenied, rfl⟩ := of_written hwrite
    exact ⟨ih.1, List.forall_mem_cons.2 ⟨hdenied, ih.2⟩⟩

/-- The place of the first output that is denied; the number of all outputs if none is. -/
def firstDenied (disk : MemoryFiles) (outputs : List Output) : Nat :=
  outputs.findIdx fun output => (disk.denied.get? output.target).isSome

/-- Writing goes up to the first output that is denied. -/
lemma run_writeOutputs (disk : MemoryFiles) (outputs : List Output) :
    let run := (writeOutputs access outputs).run disk
    access.Writings disk (outputs.take (disk.firstDenied outputs)) run.2 ∧
      match outputs[disk.firstDenied outputs]? with
      | none => run.1 = .ok ()
      | some output => ∃ message, disk.denied.get? output.target = some message ∧
          run.1 = .error (.file output.target (.other message)) := by
  intro run
  obtain ⟨written, rest, middle, result, last, rfl, hwritten, hends, hrun⟩ :=
    CssPrune.run_writeOutputs access outputs disk
  obtain ⟨hdenied, hnone⟩ := denied_of_writings hwritten
  have hfront : written.findIdx (fun output => (disk.denied.get? output.target).isSome) =
      written.length := by
    rw [List.findIdx_eq_length]
    intro output hmem
    rw [hnone output hmem]
    rfl
  rw [show run = (result, last) from hrun]
  cases hends with
  | done =>
    rw [firstDenied, List.append_nil, hfront, List.take_length, List.getElem?_eq_none le_rfl]
    exact ⟨hwritten, rfl⟩
  | @refused _ output outputs _ hwrite =>
    obtain ⟨rfl, message, hmessage, rfl⟩ := of_refused hwrite
    rw [hdenied] at hmessage
    have hplace : disk.firstDenied (written ++ output :: outputs) = written.length := by
      rw [firstDenied, List.findIdx_append, hfront, if_neg (lt_irrefl _), List.findIdx_cons,
        hmessage, Option.isSome_some, cond_true, Nat.zero_add]
    rw [hplace, List.take_left, List.getElem?_append_right le_rfl, Nat.sub_self]
    exact ⟨hwritten, message, hmessage, rfl⟩

end MemoryFiles

open MemoryFiles in

/-- Whatever the steps of a run were and whether the last one removed rules or not, no two of its
outputs have the same target. Written to files in memory, each output in front of the first one
that is denied is there afterwards, nothing else has changed, and the error names the target of the
first one that is denied, if there is one. -/
theorem writeOutputs_in_memory (settings : Settings) (steps : List Step) (disk : MemoryFiles) :
    let outputs := ((Session.start settings).run steps).outputs
    let written := outputs.take (disk.firstDenied outputs)
    let run := (writeOutputs MemoryFiles.access outputs).run disk
    (outputs.map (·.target)).Nodup ∧
    (∀ output ∈ written,
      run.2.files.get? output.target = some (.bytes (Text.encode output.text))) ∧
    (∀ path, path ∉ written.map (·.target) → run.2.files.get? path = disk.files.get? path) ∧
    run.2.denied = disk.denied ∧
    match outputs[disk.firstDenied outputs]? with
    | none => run.1 = .ok ()
    | some output => ∃ message, disk.denied.get? output.target = some message ∧
        run.1 = .error (.file output.target (.other message)) := by
  intro outputs written run
  obtain ⟨hwritings, hresult⟩ := MemoryFiles.run_writeOutputs disk outputs
  have hnodup : (outputs.map (·.target)).Nodup := Session.nodup_targets settings steps
  have hcontents := hwritings.contents lawfulWrites_access
  refine ⟨hnodup, ?_, ?_, (denied_of_writings hwritings).1, hresult⟩
  · intro output hmem
    have htargets : (written.map (·.target)).Nodup := by
      rw [List.map_take]
      exact hnodup.take
    refine (hcontents output.target).trans ?_
    have halone : view.lastOutput? disk written output.target = some output := by
      have hfilter := filter_eq_singleton htargets hmem
      simp only [beq_eq_decide] at hfilter
      simp only [FileView.lastOutput?, view, Option.some.injEq, hfilter, List.getLast?_singleton]
    rw [FileView.contentsAfter, halone]
    rfl
  · intro path hpath
    refine (hcontents path).trans ?_
    have hnone : view.lastOutput? disk written path = none := by
      rw [FileView.lastOutput?, List.getLast?_eq_none_iff, List.filter_eq_nil_iff]
      intro output hmem hleads
      refine hpath (List.mem_map.2 ⟨output, hmem, ?_⟩)
      simpa [view] using hleads
    rw [FileView.contentsAfter, hnone]
    rfl

/-- Nothing was removed of two stylesheets, and the second one is denied; it has a dot in the name
of its directory only. -/
theorem writeOutputs_in_memory_denied :
    let settings : Settings := { suffix := some ".min" }
    let steps : List Step := [.sheet "a.css" "a\x7bx\x7d".toList, .sheet "b.d/e" []]
    let disk : MemoryFiles := { denied := ⟨[("b.min.d/e", "read only")]⟩ }
    let outputs := ((Session.start settings).run steps).outputs
    let run := (writeOutputs MemoryFiles.access outputs).run disk
    disk.firstDenied outputs = 1 ∧
    run.2.files.get? "a.min.css" =
      some (.bytes (Text.encode "a \x7b\n    x;\n\x7d\n".toList)) ∧
    run.2.files.get? "b.min.d/e" = none ∧
    run.1 = .error (.file "b.min.d/e" (.other "read only")) := by
  intro settings steps disk outputs run
  have houtputs : outputs =
      [⟨"a.css", "a.min.css", "a \x7b\n    x;\n\x7d\n".toList⟩, ⟨"b.d/e", "b.min.d/e", []⟩] := by
    decide +kernel
  have hfirst : disk.firstDenied outputs = 1 := by
    rw [houtputs]
    rfl
  obtain ⟨-, hwritten, hunchanged, -, hresult⟩ := writeOutputs_in_memory settings steps disk
  change ∀ output ∈ outputs.take (disk.firstDenied outputs), _ at hwritten
  change ∀ path, path ∉ (outputs.take (disk.firstDenied outputs)).map (·.target) → _ at hunchanged
  change match outputs[disk.firstDenied outputs]? with
    | none => run.1 = .ok ()
    | some output => ∃ message, disk.denied.get? output.target = some message ∧
        run.1 = .error (.file output.target (.other message)) at hresult
  rw [hfirst, houtputs] at hwritten hunchanged hresult
  obtain ⟨message, hmessage, hrun⟩ := hresult
  obtain rfl : "read only" = message := Option.some.inj hmessage
  exact ⟨hfirst, hwritten _ List.mem_cons_self, hunchanged _ (by decide), hrun⟩

end CssPrune
