import CssPrune.Files.Memory
import CssPrune.Proofs.Independence
import CssPrune.Proofs.Utf8

/-!
# Reading files

A run on files is the run on their texts, or it stops at the first file that cannot be read
(`run_pruneFiles`). `FileAccess.Readings` says what reading files one after the other comes to, for
a file system with a state of its own, which may answer differently each time. The two loops of a
run, over documents and over stylesheets, go along one such reading of all paths
(`Session.run_addAll`), so that of several files at fault the first one is reported, and the log
holds what was said about the stylesheets before it.
-/

namespace CssPrune

/-- A run of two actions is the run of the second one from where the first one ends. -/
lemma run_bind_of_run {σ α β : Type} {action : StateM σ α} {start next : σ} {a : α}
    (h : action.run start = (a, next)) (f : α → StateM σ β) :
    (action >>= f).run start = (f a).run next := by
  rw [StateT.run_bind, h]
  rfl

/-! ## Files one after the other -/

namespace FileAccess

variable {σ : Type} {files : FileAccess (StateM σ)}

/-- What reading files one after the other comes to: the texts up to the first file that is refused
or that is not UTF-8, the error about that file, and the state of the file system then. -/
inductive Readings (files : FileAccess (StateM σ)) :
    σ → List String → List Text → Option FileError → σ → Prop where
  | done {start} : Readings files start [] [] none start
  | text {start next last path paths text texts error?} :
    (files.read path).run start = (.ok (Text.encode text), next) →
    Readings files next paths texts error? last →
    Readings files start (path :: paths) (text :: texts) error? last
  | refused {start next path paths failure} :
    (files.read path).run start = (.error failure, next) →
    Readings files start (path :: paths) [] (some (.file path failure)) next
  | notUtf8 {start next path paths bytes offset byte} :
    (files.read path).run start = (.ok bytes, next) →
    Text.StopsAt bytes offset byte →
    Readings files start (path :: paths) [] (some (.notUtf8 path byte)) next

/-- Any files can be read up to some point. -/
lemma exists_readings (files : FileAccess (StateM σ)) (start : σ) (paths : List String) :
    ∃ texts error? last, files.Readings start paths texts error? last := by
  induction paths generalizing start with
  | nil => exact ⟨[], none, start, .done⟩
  | cons path paths ih =>
    rcases hread : (files.read path).run start with ⟨failure | bytes, next⟩
    · exact ⟨[], _, next, .refused hread⟩
    · rcases Text.decode_cases bytes with ⟨text, rfl, -⟩ | ⟨_, _, hstops, -⟩
      · obtain ⟨texts, error?, last, hrest⟩ := ih next
        exact ⟨text :: texts, error?, last, .text hread hrest⟩
      · exact ⟨[], _, next, .notUtf8 hread hstops⟩

/-- Files that are read up to an error are fewer than all of them. -/
lemma Readings.length {start last : σ} {paths : List String} {texts : List Text}
    {error? : Option FileError} (h : files.Readings start paths texts error? last) :
    if error? = none then texts.length = paths.length else texts.length < paths.length := by
  induction h with
  | done => rfl
  | text _ _ ih =>
    rw [List.length_cons, List.length_cons]
    split at ih
    · rename_i hnone
      rw [if_pos hnone, ih]
    · rename_i hsome
      rw [if_neg hsome]
      omega
  | refused => simp
  | notUtf8 => simp

/-- The byte that an error names is the first byte of no character. -/
lemma Readings.le_byte {start last : σ} {paths : List String} {texts : List Text} {path : String}
    {byte : UInt8} (h : files.Readings start paths texts (some (.notUtf8 path byte)) last) :
    0x80 ≤ byte := by
  generalize herror : some (FileError.notUtf8 path byte) = error? at h
  induction h with
  | done => cases herror
  | text _ _ ih => exact ih herror
  | refused => cases herror
  | notUtf8 _ hstops =>
    cases herror
    exact hstops.le_byte

/-- Reading stops in the first files, or it goes through them and on to the others. -/
lemma Readings.of_append {start last : σ} {paths others : List String} {texts : List Text}
    {error? : Option FileError} (h : files.Readings start (paths ++ others) texts error? last) :
    (∃ error, error? = some error ∧ files.Readings start paths texts (some error) last) ∨
      ∃ first second next, texts = first ++ second ∧ files.Readings start paths first none next ∧
        files.Readings next others second error? last := by
  induction paths generalizing start texts with
  | nil => exact Or.inr ⟨[], texts, start, rfl, .done, h⟩
  | cons path paths ih =>
    cases h with
    | text hread hrest =>
      rcases ih hrest with ⟨error, rfl, hpaths⟩ | ⟨first, second, next, rfl, hpaths, hothers⟩
      · exact Or.inl ⟨error, rfl, .text hread hpaths⟩
      · exact Or.inr ⟨_ :: first, second, next, rfl, .text hread hpaths, hothers⟩
    | refused hread => exact Or.inl ⟨_, rfl, .refused hread⟩
    | notUtf8 hread hstops => exact Or.inl ⟨_, rfl, .notUtf8 hread hstops⟩

section Text

variable {start next : σ} {path : String}

/-- Bytes that encode a text are read as that text. -/
lemma readText_text {text : Text}
    (h : (files.read path).run start = (.ok (Text.encode text), next)) :
    (files.readText path).run start = (.ok text, next) := by
  rw [readText, run_bind_of_run h]
  dsimp only
  rw [Text.decode_eq_ok_iff.2 rfl]
  rfl

/-- A read that is refused fails with the path and the reason. -/
lemma readText_refused {failure : FileFailure}
    (h : (files.read path).run start = (.error failure, next)) :
    (files.readText path).run start = (.error (.file path failure), next) := by
  rw [readText, run_bind_of_run h]
  rfl

/-- Bytes that stop being UTF-8 fail with the path and the byte at which they stop. -/
lemma readText_notUtf8 {bytes : ByteArray} {offset : Nat} {byte : UInt8}
    (h : (files.read path).run start = (.ok bytes, next))
    (hstops : Text.StopsAt bytes offset byte) :
    (files.readText path).run start = (.error (.notUtf8 path byte), next) := by
  rw [readText, run_bind_of_run h]
  dsimp only
  rw [Text.decode_eq_error_iff.2 ⟨offset, hstops⟩]
  rfl

end Text

end FileAccess

namespace Session

variable {σ : Type} {files : FileAccess (StateM σ)} {start last : σ} {texts : List Text}
  {error? : Option FileError}

/-- Adding files adds the texts that are read, and gives the error that ends the reading. -/
lemma run_addFiles {paths : List String} (h : files.Readings start paths texts error? last)
    (add : Session → String → Text → Session) (session : Session) :
    (addFiles files add session paths).run start =
      (((paths.zip texts).foldl (fun session named => add session named.1 named.2) session,
        error?), last) := by
  induction h generalizing session with
  | done => rfl
  | text hread _ ih =>
    rw [addFiles, run_bind_of_run (FileAccess.readText_text hread)]
    exact ih _
  | refused hread =>
    rw [addFiles, run_bind_of_run (FileAccess.readText_refused hread), List.zip_nil_right]
    rfl
  | notUtf8 hread hstops =>
    rw [addFiles, run_bind_of_run (FileAccess.readText_notUtf8 hread hstops), List.zip_nil_right]
    rfl

/-- Documents are added as their texts are read. -/
lemma run_addDocuments {paths : List String} (h : files.Readings start paths texts error? last)
    (session : Session) :
    (session.addDocuments files paths).run start =
      ((texts.foldl addDocument session, error?), last) := by
  have hlength : texts.length ≤ paths.length := by
    have := h.length
    split at this
    · omega
    · omega
  rw [addDocuments, run_addFiles h, ← List.foldl_map, List.map_snd_zip hlength]

/-- Adding documents and stylesheets goes along one reading of all their files. -/
lemma run_addAll {html css : List String} (h : files.Readings start (html ++ css) texts error? last)
    (session : Session) :
    (session.addAll files html css).run start =
      ((((texts.take html.length).foldl addDocument session).addNamed
        (css.zip (texts.drop html.length)), error?), last) := by
  rw [addAll]
  rcases h.of_append with ⟨error, rfl, hhtml⟩ | ⟨documents, sheets, next, rfl, hhtml, hcss⟩
  · have hlength : texts.length < html.length := by simpa using hhtml.length
    rw [run_bind_of_run (run_addDocuments hhtml session), List.take_of_length_le hlength.le,
      List.drop_of_length_le hlength.le, List.zip_nil_right]
    rfl
  · have hlength : documents.length = html.length := by simpa using hhtml.length
    rw [run_bind_of_run (run_addDocuments hhtml session), ← hlength, List.take_left, List.drop_left]
    exact run_addFiles hcss _ _

end Session

/-! ## Runs on files -/

/-- The two digits of a byte, in base 16 and in capitals. -/
def hexDigits (byte : UInt8) : Text :=
  [byte.toNat / 16, byte.toNat % 16].map fun digit => "0123456789ABCDEF".toList.getD digit '0'

/-- The two digits of a byte that is no ASCII character are printed in capitals. -/
lemma map_toDigits {byte : UInt8} (h : 0x80 ≤ byte) :
    (Nat.toDigits 16 byte.toNat).map Char.toUpper = hexDigits byte := by
  have hdigits : ∀ n < 256, 0x80 ≤ n → (Nat.toDigits 16 n).map Char.toUpper =
      [n / 16, n % 16].map fun digit => "0123456789ABCDEF".toList.getD digit '0' := by
    decide +kernel
  have hle : 0x80 ≤ byte.toNat := by
    rw [UInt8.le_iff_toNat_le] at h
    exact h
  have hlt : byte.toNat < 256 := byte.toNat_lt
  exact hdigits byte.toNat hlt hle

/-- The message for bytes that are no UTF-8 names the byte in base 16. -/
lemma FileError.reason_notUtf8 (path : String) {byte : UInt8} (h : 0x80 ≤ byte) :
    (notUtf8 path byte).reason =
      "Invalid UTF-8 character \"\\x" ++ String.ofList (hexDigits byte) ++ "\"" := by
  rw [← map_toDigits h]
  rfl

section Runs

variable {σ : Type} {files : FileAccess (StateM σ)} {html css : List String} {start last : σ}
  {texts : List Text} (settings : Settings)

/-- If all files can be read, the run gives what a run on their texts gives. -/
lemma run_pruneFiles_of_read (h : files.Readings start (html ++ css) texts none last) :
    let run := prune (texts.take html.length) (css.zip (texts.drop html.length)) settings
    (pruneFiles files html css settings).run start = (⟨.ok run.result, run.log⟩, last) := by
  rw [pruneFiles, run_bind_of_run (Session.run_addAll h _)]
  rfl

/-- If a file cannot be read, the run fails with its error and the warnings so far. -/
lemma run_pruneFiles_of_error {error : FileError}
    (h : files.Readings start (html ++ css) texts (some error) last) :
    (pruneFiles files html css settings).run start =
      (⟨.error error,
        if settings.quiet then [] else warningsOf (css.zip (texts.drop html.length))⟩, last) := by
  have hlog : (Session.ofTexts (texts.take html.length) (css.zip (texts.drop html.length))
      settings).log =
        if settings.quiet then [] else warningsOf (css.zip (texts.drop html.length)) := by
    rw [Session.ofTexts, Session.log_addNamed, (Session.foldl_addDocument _ _).2,
      Session.log_foldl_addDocument]
    rfl
  rw [pruneFiles, run_bind_of_run (Session.run_addAll h _), ← hlog]
  rfl

/-- How a file system writes does not show when files are added. -/
lemma Session.addFiles_write {m : Type → Type} [Monad m] (files : FileAccess m)
    (write : String → ByteArray → m (Except FileFailure Unit))
    (add : Session → String → Text → Session) (session : Session) (paths : List String) :
    addFiles { files with write } add session paths = addFiles files add session paths := by
  induction paths generalizing session with
  | nil => rfl
  | cons path paths ih =>
    rw [addFiles, addFiles]
    refine congrArg _ (funext fun result => ?_)
    cases result with
    | error error => rfl
    | ok text => exact ih (add session path text)

/-- A run on files does not depend on how files are written. -/
lemma pruneFiles_write {m : Type → Type} [Monad m] (files : FileAccess m) (html css : List String)
    (write : String → ByteArray → m (Except FileFailure Unit)) :
    pruneFiles { files with write } html css settings = pruneFiles files html css settings := by
  rw [pruneFiles, pruneFiles, Session.addAll, Session.addAll]
  simp only [Session.addDocuments, Session.addSheets, Session.addFiles_write]

end Runs

/-- A run reads its files in their order up to the first that is refused or is not UTF-8. If there
is none, it is the run on their texts. Else it fails over that file, with the reason of the file
system or with the first byte that is not UTF-8 in its message, and its log holds the warnings about
the stylesheets before that file. The file system is left as the reading leaves it, and how it would
write does not matter. -/
theorem run_pruneFiles {σ : Type} (files : FileAccess (StateM σ)) (html css : List String)
    (settings : Settings) (start : σ) :
    (∃ texts error? last, files.Readings start (html ++ css) texts error? last) ∧
    (∀ texts last, files.Readings start (html ++ css) texts none last →
      let run := prune (texts.take html.length) (css.zip (texts.drop html.length)) settings
      (pruneFiles files html css settings).run start = (⟨.ok run.result, run.log⟩, last)) ∧
    (∀ texts error last, files.Readings start (html ++ css) texts (some error) last →
      (pruneFiles files html css settings).run start =
        (⟨.error error,
          if settings.quiet then [] else warningsOf (css.zip (texts.drop html.length))⟩, last) ∧
      ∀ path byte, error = .notUtf8 path byte →
        error.reason =
          "Invalid UTF-8 character \"\\x" ++ String.ofList (hexDigits byte) ++ "\"") ∧
    ∀ write, pruneFiles { files with write } html css settings =
      pruneFiles files html css settings := by
  refine ⟨files.exists_readings start _, fun texts last h => run_pruneFiles_of_read settings h,
    fun texts error last h => ⟨run_pruneFiles_of_error settings h, ?_⟩,
    pruneFiles_write settings files html css⟩
  rintro path byte rfl
  exact FileError.reason_notUtf8 path h.le_byte

/-- A character is cut off at the end of the second stylesheet, and the third one is missing. -/
theorem run_pruneFiles_cut_off :
    let sheet := "p\x7bx\x7d @media".toList
    let disk : MemoryFiles := { files := ⟨[
      ("a.html", .bytes (Text.encode "<p>".toList)), ("b.css", .bytes (Text.encode sheet)),
      ("c.css", .bytes (Text.encode ['a'] ++ ⟨#[0xE2, 0x82]⟩))]⟩ }
    (pruneFiles MemoryFiles.access ["a.html"] ["b.css", "c.css", "d.css"] {}).run disk =
      (⟨.error (.notUtf8 "c.css" 0xE2), warningsOf [("b.css", sheet)]⟩, disk) ∧
    (FileError.notUtf8 "c.css" 0xE2).reason = "Invalid UTF-8 character \"\\xE2\"" := by
  intro sheet disk
  have hstops : Text.StopsAt (Text.encode ['a'] ++ ⟨#[0xE2, 0x82]⟩) 1 0xE2 :=
    Text.stopsAt_of_undecoded (by decide) (by decide)
  have hreadings : MemoryFiles.access.Readings disk (["a.html"] ++ ["b.css", "c.css", "d.css"])
      ["<p>".toList, sheet] (some (.notUtf8 "c.css" 0xE2)) disk :=
    .text rfl (.text rfl (.notUtf8 rfl hstops))
  obtain ⟨hrun, hreason⟩ := (run_pruneFiles MemoryFiles.access ["a.html"]
    ["b.css", "c.css", "d.css"] {} disk).2.2.1 _ _ _ hreadings
  exact ⟨hrun, hreason _ _ rfl⟩

end CssPrune
