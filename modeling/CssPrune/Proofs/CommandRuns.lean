import CssPrune.CommandLine.Run
import CssPrune.Proofs.Discovery

/-!
# Runs of the command

A command reads all that it finds before it writes anything (`run_reads_before_writing`). Finding
files changes nothing, for every action of the search is a sequence of looks (`Glob.keeps_findAll`).
So all files are read from the state in which the run starts, and what is written is made from what
they held there, whichever of them the outputs replace.
-/

namespace CssPrune

/-! ## Files that stay as they are -/

namespace FileAccess

variable {σ : Type} {files : FileAccess (StateM σ)} {start last : σ} {paths : List String}
  {texts : List Text}

/-- A path can be read, and what it leads to is the UTF-8 form of a text. -/
def Holds (files : FileAccess (StateM σ)) (state : σ) (path : String) (text : Text) : Prop :=
  ((files.read path).run state).1 = .ok (Text.encode text)

/-- Files that hold texts are read one after the other without a change. -/
lemma readings_of_holds (hread : ∀ path, Keeps (files.read path))
    (h : List.Forall₂ (files.Holds start) paths texts) :
    files.Readings start paths texts none start := by
  induction h with
  | nil => exact .done
  | @cons path text paths texts hpath _ ih =>
    refine .text ?_ ih
    rw [(hread path).run_eq, hpath]

/-- If one of several files cannot be read or is not UTF-8, reading them ends with an error. -/
lemma exists_readings_error (hread : ∀ path, Keeps (files.read path))
    (h : ∃ path ∈ paths, ∀ text, ¬ files.Holds start path text) :
    ∃ texts error, files.Readings start paths texts (some error) start := by
  induction paths with
  | nil =>
    obtain ⟨_, hmem, -⟩ := h
    cases hmem
  | cons path paths ih =>
    have hrun := (hread path).run_eq start
    cases hresult : ((files.read path).run start).1 with
    | error failure =>
      rw [hresult] at hrun
      exact ⟨[], _, .refused hrun⟩
    | ok bytes =>
      rw [hresult] at hrun
      rcases Text.decode_cases bytes with ⟨text, rfl, -⟩ | ⟨_, _, hstops, -⟩
      · have hrest : ∃ path ∈ paths, ∀ text, ¬ files.Holds start path text := by
          obtain ⟨other, hmem, hnot⟩ := h
          rcases List.mem_cons.1 hmem with rfl | hmem
          · exact absurd hresult (hnot text)
          · exact ⟨other, hmem, hnot⟩
        obtain ⟨texts, error, hreadings⟩ := ih hrest
        exact ⟨text :: texts, error, .text hrun hreadings⟩
      · exact ⟨[], _, .notUtf8 hrun hstops⟩

end FileAccess

/-! ## Stylesheets without a name -/

namespace Session

variable (session : Session) (unnamed : Nat)

/-- The number of stylesheets without a name does not show in a stylesheet that is added. -/
lemma addSheet_unnamed (name : String) (css : Text) :
    { session with unnamed }.addSheet name css = { session.addSheet name css with unnamed } := by
  rw [addSheet, addSheet, report, report]
  split
  · rfl
  · rfl

/-- The number of stylesheets without a name does not show in stylesheets that are added. -/
lemma addNamed_unnamed (css : List (String × Text)) :
    { session with unnamed }.addNamed css = { session.addNamed css with unnamed } := by
  induction css generalizing session with
  | nil => rfl
  | cons named css ih =>
    have hrest := ih (session.addSheet named.1 named.2)
    rw [← addSheet_unnamed] at hrest
    exact hrest

/-- Stylesheets without a name go under numbered names. -/
lemma foldl_addInline (css : List Text) :
    css.foldl (fun session css => (session.addInline css).2) session =
      { session.addNamed (css.mapIdx fun i css => (inlineName (session.unnamed + i), css)) with
        unnamed := session.unnamed + css.length } := by
  induction css generalizing session with
  | nil => rfl
  | cons text css ih =>
    rw [List.foldl_cons, ih, List.mapIdx_cons, List.length_cons]
    show _ = { (session.addSheet (inlineName session.unnamed) text).addNamed _ with
      unnamed := session.unnamed + (css.length + 1) }
    rw [addInline, addSheet_unnamed, addNamed_unnamed]
    simp only [Nat.add_assoc, Nat.add_comm 1]

/-- Stylesheets with names leave the number of those without one as it is. -/
lemma unnamed_addNamed (css : List (String × Text)) :
    (session.addNamed css).unnamed = session.unnamed :=
  apply_addNamed Session.unnamed unnamed_addSheet session css

/-- Documents leave the number of stylesheets without a name as it is. -/
lemma unnamed_foldl_addDocument (html : List Text) :
    (html.foldl addDocument session).unnamed = session.unnamed := by
  have hstep (session : Session) (document : Text) :
      (session.addDocument document).unnamed = session.unnamed := rfl
  exact apply_foldl Session.unnamed hstep session html

/-- The number of stylesheets without a name does not show in what is printed and reported. -/
lemma pruneAndPrint_unnamed :
    { session with unnamed }.pruneAndPrint = session.pruneAndPrint := by
  have hlog : { session with unnamed }.prune.log = session.prune.log := by
    rw [log_prune_append, log_prune_append]
    rfl
  have houtputs : { session with unnamed }.prune.outputs = session.prune.outputs := by
    rw [outputs, outputs, sheets_prune, sheets_prune, settings_prune, settings_prune]
    rfl
  rw [pruneAndPrint, pruneAndPrint, hlog, houtputs]

end Session

/-! ## Commands -/

namespace CommandLine

/-- The HTML inputs that are markup. -/
def Arguments.markup (arguments : Arguments) : List Text :=
  (arguments.html.filter isMarkup).map String.toList

/-- The stylesheets that are given as texts, under the names that they go under. -/
def Arguments.inlineSheets (arguments : Arguments) : List (String × Text) :=
  (arguments.inlineCss.map String.toList).mapIdx fun i css => (Session.inlineName i, css)

variable {σ : Type} (directory : Directory (StateM σ)) (arguments : Arguments) (start : σ)

/-- The documents that are found for the HTML inputs that are no markup. -/
def Arguments.htmlPaths : List String :=
  ((Glob.findAll directory (arguments.html.filter (!isMarkup ·))).run start).1

/-- The stylesheets that are found. -/
def Arguments.cssPaths : List String :=
  ((Glob.findAll directory arguments.css).run start).1

variable {directory} {arguments} {start}

/-- Gathering goes along one reading of the files that are found, and leaves them as they are. -/
lemma run_gather (hlook : directory.LawfulReads) {texts : List Text} {error? : Option FileError}
    (h : directory.Readings start
      (arguments.htmlPaths directory start ++ arguments.cssPaths directory start) texts error?
      start) :
    let documents := texts.take (arguments.htmlPaths directory start).length
    let sheets := texts.drop (arguments.htmlPaths directory start).length
    let session := Session.ofTexts (arguments.markup ++ documents)
      ((arguments.cssPaths directory start).zip sheets) arguments.settings
    (arguments.gather directory).run start =
      match error? with
      | some error => ((session, some error), start)
      | none => (((arguments.inlineCss.map String.toList).foldl
          (fun session css => (session.addInline css).2) session, none), start) := by
  intro documents sheets session
  have hadd := Session.run_addAll h (arguments.markup.foldl Session.addDocument
    (.start arguments.settings))
  rw [← List.foldl_append] at hadd
  rw [Arguments.gather, run_bind_of_run ((Glob.keeps_findAll hlook _).run_eq start),
    run_bind_of_run ((Glob.keeps_findAll hlook _).run_eq start)]
  refine (run_bind_of_run hadd _).trans ?_
  cases error? with
  | some error => rfl
  | none => rfl

/-- If one of the files that are found cannot be read, the run fails and leaves all files as they
are. -/
lemma run_of_unreadable (hlook : directory.LawfulReads)
    (h : ∃ path ∈ arguments.htmlPaths directory start ++ arguments.cssPaths directory start,
      ∀ text, ¬ directory.Holds start path text) :
    ((arguments.run directory).run start).1.exitCode = 1 ∧
      ((arguments.run directory).run start).2 = start := by
  obtain ⟨texts, error, hreadings⟩ := FileAccess.exists_readings_error hlook.read h
  have hgather := run_gather hlook hreadings
  rw [Arguments.run, run_bind_of_run hgather]
  exact ⟨rfl, rfl⟩

/-- If all files that are found can be read, the run goes on with what a run on their texts gives,
from where it started. -/
lemma run_gather_pruneAndPrint (hlook : directory.LawfulReads) {documents sheets : List Text}
    (hhtml : List.Forall₂ (directory.Holds start) (arguments.htmlPaths directory start) documents)
    (hcss : List.Forall₂ (directory.Holds start) (arguments.cssPaths directory start) sheets) :
    ∃ session, (arguments.gather directory).run start = ((session, none), start) ∧
      session.pruneAndPrint = prune (arguments.markup ++ documents)
        ((arguments.cssPaths directory start).zip sheets ++ arguments.inlineSheets)
        arguments.settings := by
  have hreadings := FileAccess.readings_of_holds hlook.read (List.rel_append hhtml hcss)
  have hgather := run_gather hlook hreadings
  rw [hhtml.length_eq, List.take_left, List.drop_left] at hgather
  refine ⟨_, hgather, ?_⟩
  rw [Session.foldl_addInline, Session.pruneAndPrint_unnamed, Session.ofTexts,
    Session.unnamed_addNamed, Session.unnamed_foldl_addDocument, Session.addNamed,
    Session.addNamed, ← List.foldl_append]
  have hzero : (Session.start arguments.settings).unnamed = 0 := rfl
  simp only [hzero, Nat.zero_add]
  rfl

variable {φ κ : Type} [DecidableEq φ] {view : FileView σ φ κ}

/-- If all files that are found can be read, the outputs are made from what they hold at the start,
and printed or written. -/
lemma run_of_readable (hlaws : directory.Lawful view) {documents sheets : List Text}
    (hhtml : List.Forall₂ (directory.Holds start) (arguments.htmlPaths directory start) documents)
    (hcss : List.Forall₂ (directory.Holds start) (arguments.cssPaths directory start) sheets) :
    let outputs := (prune (arguments.markup ++ documents)
      ((arguments.cssPaths directory start).zip sheets ++ arguments.inlineSheets)
      arguments.settings).result
    let run := (arguments.run directory).run start
    (arguments.stdout = true →
      run.1.exitCode = 0 ∧ run.1.stdout = printOutputs outputs ∧ run.2 = start) ∧
    (arguments.stdout = false →
      ∃ written rest middle result, outputs = written ++ rest ∧
        directory.Writings start written middle ∧ directory.Ends middle rest result run.2 ∧
        run.1.exitCode = (if rest = [] then 0 else 1) ∧
        ∀ file, (∀ output ∈ rest.head?, view.leadsTo start output.target ≠ some file) →
          view.contents run.2 file = view.contentsAfter start written file) := by
  intro outputs run
  obtain ⟨session, hgather, hprinted⟩ := run_gather_pruneAndPrint hlaws.toLawfulReads hhtml hcss
  have hrun : run = StateT.run _ start := run_bind_of_run hgather _
  dsimp only at hrun
  rw [hprinted] at hrun
  constructor
  · intro hstdout
    rw [hrun, if_pos hstdout]
    exact ⟨rfl, rfl, rfl⟩
  · intro hstdout
    have hnot : ¬ arguments.stdout = true := by
      rw [hstdout]
      exact Bool.false_ne_true
    obtain ⟨written, rest, middle, result, last, hsplit, hwritten, hends, hwrite⟩ :=
      run_writeOutputs directory.toFileAccess outputs start
    have hlast : run.2 = last ∧ run.1.exitCode = if rest = [] then 0 else 1 := by
      rw [hrun, if_neg hnot, run_bind_of_run hwrite]
      cases hends with
      | done => exact ⟨rfl, rfl⟩
      | refused => exact ⟨rfl, rfl⟩
    obtain ⟨rfl, hcode⟩ := hlast
    exact ⟨written, rest, middle, result, hsplit, hwritten, hends, hcode,
      fun file hfile => hwritten.contents_of_ends hends hlaws.toLawfulWrites hfile⟩

/-- Whatever the files are, a command reads all that it finds before it writes anything. If a file
that it finds cannot be read or is not UTF-8, it fails, and everything is as it was. Else it makes
the outputs from what the files held at its start. It prints them, and everything is as it was; or
it writes them up to the first one that is refused, and then each file but the refused one holds
the last text that was written to it, or what it held before. -/
theorem run_reads_before_writing (hlaws : directory.Lawful view) (argv : List String) (start : σ) :
    let run := (CommandLine.run directory argv).run start
    match Request.parse argv with
    | .ok (.run arguments) =>
      let html := arguments.htmlPaths directory start
      let css := arguments.cssPaths directory start
      ((∃ path ∈ html ++ css, ∀ text, ¬ directory.Holds start path text) →
        run.1.exitCode = 1 ∧ run.2 = start) ∧
      ∀ documents sheets, List.Forall₂ (directory.Holds start) html documents →
        List.Forall₂ (directory.Holds start) css sheets →
        let outputs := (prune (arguments.markup ++ documents)
          (css.zip sheets ++ arguments.inlineSheets) arguments.settings).result
        (arguments.stdout = true →
          run.1.exitCode = 0 ∧ run.1.stdout = printOutputs outputs ∧ run.2 = start) ∧
        (arguments.stdout = false →
          ∃ written rest middle result, outputs = written ++ rest ∧
            directory.Writings start written middle ∧ directory.Ends middle rest result run.2 ∧
            run.1.exitCode = (if rest = [] then 0 else 1) ∧
            ∀ file, (∀ output ∈ rest.head?, view.leadsTo start output.target ≠ some file) →
              view.contents run.2 file = view.contentsAfter start written file)
    | _ => run.2 = start := by
  intro run
  have hrun : run = (CommandLine.run directory argv).run start := rfl
  rw [CommandLine.run] at hrun
  rw [hrun]
  cases Request.parse argv with
  | error error => rfl
  | ok request =>
    cases request with
    | version => rfl
    | help => rfl
    | run arguments =>
      refine ⟨run_of_unreadable hlaws.toLawfulReads, fun documents sheets hhtml hcss => ?_⟩
      exact run_of_readable hlaws hhtml hcss

/-- The outputs replace the stylesheets. If the second one is not UTF-8, the first one stays as it
is. -/
theorem run_reads_before_writing_in_place :
    let argv := ["--html", "a.html", "--css", "b.css", "--css", "c.css", "--suffix", ""]
    let tree (last : ByteArray) := FileTree.ofPaths
      [("a.html", Text.encode "<p>".toList), ("b.css", Text.encode "p\x7bx\x7d q\x7by\x7d".toList),
        ("c.css", last)] []
    let run (last : ByteArray) := (CommandLine.run FileTree.access argv).run (tree last)
    ((run ⟨#[0xFF]⟩).1.exitCode = 1 ∧ (run ⟨#[0xFF]⟩).2 = tree ⟨#[0xFF]⟩) ∧
    (run ⟨#[]⟩).1.exitCode = 0 ∧
      (run ⟨#[]⟩).2.files.get? ["b.css"] = some (Text.encode "p \x7b\n    x;\n\x7d\n".toList) := by
  intro argv tree run
  let arguments : Arguments :=
    { html := ["a.html"], css := ["b.css", "c.css"], suffix? := some "" }
  have hparse : Request.parse argv = .ok (.run arguments) := by decide +kernel
  have hlook := FileTree.lawful_access.toLawfulReads
  have hhtml (last : ByteArray) : arguments.htmlPaths FileTree.access (tree last) = ["a.html"] := by
    have hmarkup : ["a.html"].filter (!isMarkup ·) = ["a.html"] := by decide
    have hplain : Glob.IsPlain "a.html".toList := by decide
    rw [Arguments.htmlPaths, Glob.run_findAll hlook, hmarkup, List.flatMap_singleton,
      Glob.run_filesOf_name hlook hplain]
    show Glob.distinctPaths ["a.html"] = _
    decide +kernel
  have hcss (last : ByteArray) :
      arguments.cssPaths FileTree.access (tree last) = ["b.css", "c.css"] := by
    have hfirst : Glob.IsPlain "b.css".toList := by decide
    have hsecond : Glob.IsPlain "c.css".toList := by decide
    rw [Arguments.cssPaths, Glob.run_findAll hlook, List.flatMap_cons, List.flatMap_singleton,
      Glob.run_filesOf_name hlook hfirst, Glob.run_filesOf_name hlook hsecond]
    show Glob.distinctPaths ["b.css", "c.css"] = _
    decide +kernel
  have hruns (last : ByteArray) := run_reads_before_writing FileTree.lawful_access argv (tree last)
  simp only [hparse, hhtml, hcss] at hruns
  have hfailed := (hruns ⟨#[0xFF]⟩).1 ⟨"c.css", by simp, fun text htext => by
    have hdecode := Text.decode_eq_ok_iff.2 (Except.ok.inj htext)
    have herror : Text.decode ⟨#[0xFF]⟩ = .error 0xFF := by decide +kernel
    cases herror.symm.trans hdecode⟩
  obtain ⟨written, rest, middle, result, houtputs, hwritten, hends, hcode, hcontents⟩ :=
    ((hruns ⟨#[]⟩).2 ["<p>".toList] ["p\x7bx\x7d q\x7by\x7d".toList, []] (.cons rfl .nil)
      (.cons rfl (.cons rfl .nil))).2 rfl
  have hkept : written ++ rest =
      [⟨"b.css", "b.css", "p \x7b\n    x;\n\x7d\n".toList⟩, ⟨"c.css", "c.css", []⟩] := by
    rw [← houtputs]
    decide +kernel
  have hresult : result = .ok () := by
    have hrun := hwritten.run_eq hends
    rw [hkept] at hrun
    exact (congrArg Prod.fst hrun).symm
  subst hresult
  have hdone : rest = [] := by
    generalize (run ⟨#[]⟩).2 = last at hends
    cases hends
    rfl
  rw [hdone, List.append_nil] at hkept
  rw [hdone] at hcode
  have hfile := hcontents ["b.css"] (by rw [hdone]; nofun)
  rw [hkept] at hfile
  exact ⟨hfailed, hcode, hfile⟩

end CommandLine

end CssPrune
