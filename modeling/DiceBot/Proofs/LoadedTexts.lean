import DiceBot.DisplayTexts
import DiceBot.Proofs.BlankTexts
import DiceBot.Proofs.FallibleSteps
import Mathlib.Data.List.Nodup

/-!
# Texts from a directory

The regular files of a directory replace the built-in texts one after the other, so under each key
the last file counts. Where no two files have the same key, their order does not matter. One file
that is no text makes all of them fail; directories and links do nothing.
-/
namespace DiceBot

/-- The key and the content of a regular file; directories and links have none. -/
def DirectoryEntry.file? (e : DirectoryEntry) : Option (String × ByteArray) :=
  match e.node with
  | .file content => some (decodeName e.name, content)
  | _ => none

def filesOf (entries : List DirectoryEntry) : List (String × ByteArray) :=
  entries.filterMap DirectoryEntry.file?

def lastUnder? (key : String) (files : List (String × ByteArray)) : Option ByteArray :=
  ((files.filter (·.1 = key)).getLast?).map Prod.snd

/-- Loading from the directory entries ends as it is to: it fails if a regular file is no text, and
otherwise the last file under a key is the text there, without blanks around it, and what was built
in is the text elsewhere. -/
structure LoadsAs (entries : List DirectoryEntry) (outcome : Except FileFault Texts) : Prop where
  fails_iff : outcome = .error .notText ↔ ∃ file ∈ filesOf entries, ¬ file.2.IsValidUTF8
  ends : outcome = .error .notText ∨ ∃ t, outcome = .ok t
  replaced : ∀ t, outcome = .ok t → ∀ key content, lastUnder? key (filesOf entries) = some content →
    ∃ text trimmed, content = text.toUTF8 ∧ TrimsTo text trimmed ∧ t.get? key = some trimmed
  kept : ∀ t, outcome = .ok t → ∀ key, lastUnder? key (filesOf entries) = none →
    t.get? key = Texts.builtIn.get? key

private theorem lastUnder?_cons (key : String) (file : String × ByteArray)
    (files : List (String × ByteArray)) :
    lastUnder? key (file :: files) =
      (lastUnder? key files).or (if file.1 = key then some file.2 else none) := by
  rw [lastUnder?, lastUnder?, List.filter_cons]
  split
  next h =>
    rw [List.getLast?_cons, if_pos (of_decide_eq_true h)]
    cases (files.filter (·.1 = key)).getLast? <;> rfl
  next h =>
    rw [if_neg (by simpa using h), Option.or_none]

theorem lastUnder?_mem {key : String} {content : ByteArray} {files : List (String × ByteArray)}
    (h : lastUnder? key files = some content) : (key, content) ∈ files := by
  obtain ⟨⟨key', content'⟩, hlast, rfl⟩ := Option.map_eq_some_iff.mp h
  obtain ⟨hmem, hkey⟩ := List.mem_filter.mp (List.mem_of_getLast? hlast)
  obtain rfl : key' = key := by simpa using hkey
  exact hmem

private theorem lastUnder?_eq_none {key : String} {files : List (String × ByteArray)} :
    lastUnder? key files = none ↔ ∀ file ∈ files, file.1 ≠ key := by
  simp [lastUnder?]

/-- Where every key is there once, the last file under a key is the only one. -/
theorem lastUnder?_eq_some {key : String} {content : ByteArray}
    {files : List (String × ByteArray)} (h : (files.map Prod.fst).Nodup) :
    lastUnder? key files = some content ↔ (key, content) ∈ files := by
  refine ⟨lastUnder?_mem, fun hmem => ?_⟩
  cases hlast : lastUnder? key files with
  | none => exact absurd rfl (lastUnder?_eq_none.mp hlast _ hmem)
  | some content' =>
    have hsame := List.inj_on_of_nodup_map h (lastUnder?_mem hlast) hmem rfl
    exact congrArg (some ∘ Prod.snd) hsame

private theorem lastUnder?_perm {files files' : List (String × ByteArray)}
    (hperm : files.Perm files') (h : (files.map Prod.fst).Nodup) (key : String) :
    lastUnder? key files = lastUnder? key files' := by
  have h' : (files'.map Prod.fst).Nodup := (hperm.map Prod.fst).nodup_iff.mp h
  refine Option.ext fun content => ?_
  rw [lastUnder?_eq_some h, lastUnder?_eq_some h', hperm.mem_iff]

namespace FileTree

/-- The top directory of a tree can always be read. -/
theorem entries_top (t : FileTree) : t.entries hereName = .ok (t.entriesOf .top) := by
  have hnames : pathNames hereName = [hereName] := by decide
  have htop : t.follow maxLinks .top [hereName] = .ok (.found .top) := by
    rw [follow.eq_def]
    exact FileTree.follow.eq_def t maxLinks .top []
  have hhere : t.resolve (pathNames hereName) = .ok .top := by
    rw [hnames, resolve, locate, htop]
    rfl
  rw [entries, hhere]
  rfl

end FileTree

theorem fromUTF8?_of_valid {content : ByteArray} (h : content.IsValidUTF8) :
    String.fromUTF8? content = some (String.fromUTF8 content h) := dif_pos h

namespace Texts

def addFile (t : Texts) (file : String × ByteArray) : Except FileFault Texts :=
  match String.fromUTF8? file.2 with
  | some text => .ok ⟨t.byKey.insert file.1 (trim text)⟩
  | none => .error .notText

/-- Only the regular files matter. -/
theorem ofEntries_eq_foldlM (entries : List DirectoryEntry) :
    ofEntries entries = (filesOf entries).foldlM addFile builtIn := by
  rw [ofEntries, filesOf, List.foldlM_filterMap]
  congr 1
  funext t e
  rcases e with ⟨name, content | _ | target⟩ <;> rfl

theorem addFile_of_valid {file : String × ByteArray} (h : file.2.IsValidUTF8) (t : Texts) :
    t.addFile file = .ok ⟨t.byKey.insert file.1 (trim (String.fromUTF8 file.2 h))⟩ := by
  rw [addFile, fromUTF8?_of_valid h]

private theorem addFile_of_not_valid {file : String × ByteArray} (h : ¬ file.2.IsValidUTF8)
    (t : Texts) :
    t.addFile file = .error .notText := by
  have hnone : String.fromUTF8? file.2 = none := dif_neg h
  rw [addFile, hnone]

private theorem get?_insert (t : Texts) (key text key' : String) :
    get? ⟨t.byKey.insert key text⟩ key' = if key = key' then some text else t.get? key' := by
  rw [get?, Std.HashMap.getElem?_insert]
  simp only [beq_iff_eq]
  rfl

/-- The text under a key once the files are added: that of the last one, or what was there
before. -/
def textAfter (before : Option String) (files : List (String × ByteArray)) (key : String) :
    Option String :=
  match lastUnder? key files with
  | some content => (String.fromUTF8? content).map trim
  | none => before

private theorem textAfter_cons (before : Option String) {file : String × ByteArray}
    (hvalid : file.2.IsValidUTF8) (files : List (String × ByteArray)) (key : String) :
    textAfter before (file :: files) key =
      textAfter (if file.1 = key then some (trim (String.fromUTF8 file.2 hvalid)) else before)
        files key := by
  rw [textAfter, textAfter, lastUnder?_cons]
  cases lastUnder? key files with
  | some content => rfl
  | none =>
    by_cases hkey : file.1 = key
    · simp only [if_pos hkey, Option.none_or, fromUTF8?_of_valid hvalid, Option.map_some]
    · simp only [if_neg hkey, Option.none_or]

/-- Files that are texts are added one by one, up to the last under each key. -/
theorem foldlM_addFile_of_valid {files : List (String × ByteArray)}
    (h : ∀ file ∈ files, file.2.IsValidUTF8) (t : Texts) :
    ∃ t', files.foldlM addFile t = .ok t' ∧
      ∀ key, t'.get? key = textAfter (t.get? key) files key := by
  induction files generalizing t with
  | nil => exact ⟨t, rfl, fun key => rfl⟩
  | cons file files ih =>
    rw [List.forall_mem_cons] at h
    obtain ⟨t', ht', hget⟩ := ih h.2 ⟨t.byKey.insert file.1 (trim (String.fromUTF8 file.2 h.1))⟩
    refine ⟨t', ?_, fun key => ?_⟩
    · rw [List.foldlM_cons, addFile_of_valid h.1, ok_bind, ht']
    · rw [hget, get?_insert, textAfter_cons _ h.1]

/-- One file that is no text is enough to stop the loading. -/
theorem foldlM_addFile_of_not_valid {files : List (String × ByteArray)}
    (h : ∃ file ∈ files, ¬ file.2.IsValidUTF8) (t : Texts) :
    files.foldlM addFile t = .error .notText := by
  induction files generalizing t with
  | nil =>
    obtain ⟨file, hmem, -⟩ := h
    cases hmem
  | cons file files ih =>
    rw [List.foldlM_cons]
    by_cases hvalid : file.2.IsValidUTF8
    · rw [List.exists_mem_cons_iff] at h
      rw [addFile_of_valid hvalid, ok_bind, ih (h.resolve_left (not_not_intro hvalid))]
    · rw [addFile_of_not_valid hvalid, error_bind]

/-- Either a file is no text and nothing is loaded, or every key has the text that the files leave
under it. -/
theorem ofEntries_cases (entries : List DirectoryEntry) :
    (∃ file ∈ filesOf entries, ¬ file.2.IsValidUTF8) ∧ ofEntries entries = .error .notText ∨
      (∀ file ∈ filesOf entries, file.2.IsValidUTF8) ∧ ∃ t, ofEntries entries = .ok t ∧
        ∀ key, t.get? key = textAfter (builtIn.get? key) (filesOf entries) key := by
  rw [ofEntries_eq_foldlM]
  by_cases h : ∀ file ∈ filesOf entries, file.2.IsValidUTF8
  · exact .inr ⟨h, foldlM_addFile_of_valid h builtIn⟩
  · have hfile : ∃ file ∈ filesOf entries, ¬ file.2.IsValidUTF8 := by simpa using h
    exact .inl ⟨hfile, foldlM_addFile_of_not_valid hfile builtIn⟩

theorem ofEntries_eq_error {entries : List DirectoryEntry} :
    ofEntries entries = .error .notText ↔ ∃ file ∈ filesOf entries, ¬ file.2.IsValidUTF8 := by
  rcases ofEntries_cases entries with ⟨hfile, herror⟩ | ⟨hvalid, t, ht, -⟩
  · exact iff_of_true herror hfile
  · refine iff_of_false (by simp [ht]) ?_
    rintro ⟨file, hmem, hnot⟩
    exact hnot (hvalid file hmem)

theorem of_ofEntries {entries : List DirectoryEntry} {t : Texts} (h : ofEntries entries = .ok t) :
    (∀ file ∈ filesOf entries, file.2.IsValidUTF8) ∧
      ∀ key, t.get? key = textAfter (builtIn.get? key) (filesOf entries) key := by
  rcases ofEntries_cases entries with ⟨-, herror⟩ | ⟨hvalid, t', ht', hget⟩
  · rw [h] at herror
    cases herror
  · rw [h] at ht'
    cases ht'
    exact ⟨hvalid, hget⟩

theorem ofEntries_loadsAs (entries : List DirectoryEntry) :
    LoadsAs entries (ofEntries entries) where
  fails_iff := ofEntries_eq_error
  ends := by
    rcases ofEntries_cases entries with ⟨-, herror⟩ | ⟨-, t, ht, -⟩
    · exact .inl herror
    · exact .inr ⟨t, ht⟩
  replaced t ht key content hlast := by
    obtain ⟨hvalid, hget⟩ := of_ofEntries ht
    have hcontent : content.IsValidUTF8 := hvalid _ (lastUnder?_mem hlast)
    refine ⟨String.fromUTF8 content hcontent, _, rfl, trimsTo_trim _, ?_⟩
    rw [hget, textAfter, hlast]
    exact congrArg (Option.map trim) (fromUTF8?_of_valid hcontent)
  kept t ht key hlast := by
    rw [(of_ofEntries ht).2, textAfter, hlast]

/-- Where no two files have the same key, the texts are the same in every order. -/
theorem ofEntries_perm {entries entries' : List DirectoryEntry} (hperm : entries.Perm entries')
    (h : ((filesOf entries).map Prod.fst).Nodup) :
    (ofEntries entries).map get? = (ofEntries entries').map get? := by
  have hfiles : (filesOf entries).Perm (filesOf entries') := hperm.filterMap _
  have hsame : ofEntries entries = .error .notText ↔ ofEntries entries' = .error .notText := by
    rw [ofEntries_eq_error, ofEntries_eq_error]
    simp only [hfiles.mem_iff]
  rcases (ofEntries_loadsAs entries).ends with hfails | ⟨t, ht⟩
  · rw [hfails, hsame.mp hfails]
  · rcases (ofEntries_loadsAs entries').ends with hfails | ⟨t', ht'⟩
    · rw [hsame.mpr hfails, hfails]
    · have hget : t.get? = t'.get? := by
        funext key
        rw [(of_ofEntries ht).2, (of_ofEntries ht').2, textAfter, textAfter,
          lastUnder?_perm hfiles h]
      rw [ht, ht', Except.map, Except.map, hget]

/-- The keys under which there always is a text. -/
def builtInKeys : List String := [syntaxKey, helpKey, aboutKey]

private theorem isSome_builtIn {key : String} (h : key ∈ builtInKeys) :
    (builtIn.get? key).isSome := by
  rw [get?, builtIn, Std.HashMap.isSome_getElem?_iff_mem, Std.HashMap.mem_ofList]
  simpa [builtInKeys] using h

theorem get?_of_mem_builtInKeys {entries : List DirectoryEntry} {t : Texts}
    (h : ofEntries entries = .ok t) {key : String} (hkey : key ∈ builtInKeys) :
    t.get? key = some (t.textOf key) := by
  obtain ⟨hvalid, hget⟩ := of_ofEntries h
  have hsome : (t.get? key).isSome := by
    rw [hget, textAfter]
    split
    next content hlast =>
      rw [fromUTF8?_of_valid (hvalid _ (lastUnder?_mem hlast))]
      rfl
    next => exact isSome_builtIn hkey
  obtain ⟨text, htext⟩ := Option.isSome_iff_exists.mp hsome
  rw [textOf, htext]
  rfl

/-- What a directory holds in the given order becomes the texts that its regular files are, and
nothing else in the directory or below it counts. Whenever the loading succeeds, a text is under
every key that the bot looks for. -/
theorem load_regular_files (entries : List DirectoryEntry) :
    (∀ tree path, FileTree.entries tree path = .ok entries → LoadsAs entries (load tree path)) ∧
    LoadsAs entries (ofEntries entries) ∧
    (∀ entries', filesOf entries' = filesOf entries → ofEntries entries' = ofEntries entries) ∧
    (∀ entries', entries.Perm entries' → ((filesOf entries).map Prod.fst).Nodup →
      (ofEntries entries).map get? = (ofEntries entries').map get?) ∧
    ∀ t, ofEntries entries = .ok t → ∀ key ∈ builtInKeys, t.get? key = some (t.textOf key) := by
  refine ⟨fun tree path h => ?_, ofEntries_loadsAs entries, fun entries' h => ?_,
    fun entries' => ofEntries_perm, fun t ht key => get?_of_mem_builtInKeys ht⟩
  · rw [load, h, ok_bind]
    exact ofEntries_loadsAs entries
  · rw [ofEntries_eq_foldlM, ofEntries_eq_foldlM, h]

def mixedTree : FileTree := ⟨[
  ([[0x68, 0x65, 0x6C, 0x70]], .file " Roll it.\n".toUTF8),
  ([[0x64]], .directory),
  ([[0x64], [0x61, 0x62, 0x6F, 0x75, 0x74]], .file "Hidden".toUTF8),
  ([[0x61, 0x62, 0x6F, 0x75, 0x74]], .link [0x68, 0x65, 0x6C, 0x70])]⟩

def mixedEntries : List DirectoryEntry := [
  ⟨[0x68, 0x65, 0x6C, 0x70], .file " Roll it.\n".toUTF8⟩,
  ⟨[0x64], .directory⟩,
  ⟨[0x61, 0x62, 0x6F, 0x75, 0x74], .link [0x68, 0x65, 0x6C, 0x70]⟩]

theorem load_regular_files_mixed :
    ∃ t, load mixedTree hereName = .ok t ∧ t.get? helpKey = some "Roll it." ∧
      t.get? aboutKey = builtIn.get? aboutKey ∧ t.get? aboutKey = some (t.textOf aboutKey) ∧
      ofEntries [⟨[0x68, 0x65, 0x6C, 0x70], .file " Roll it.\n".toUTF8⟩] = .ok t ∧
      (ofEntries mixedEntries.reverse).map get? = .ok t.get? := by
  have hentries : mixedTree.entries hereName = .ok mixedEntries := mixedTree.entries_top
  have hfiles : filesOf mixedEntries = [(helpKey, " Roll it.\n".toUTF8)] := rfl
  have hvalid : ¬ ∃ file ∈ filesOf mixedEntries, ¬ file.2.IsValidUTF8 := by
    rw [hfiles]
    simpa using String.isValidUTF8 _
  obtain ⟨hload, hspec, honly, hperm, hkeys⟩ := load_regular_files mixedEntries
  obtain ⟨t, ht⟩ := hspec.ends.resolve_left (mt hspec.fails_iff.mp hvalid)
  have hloaded : load mixedTree hereName = .ok t := by
    rw [load, hentries, ok_bind, ht]
  have hsame := hload mixedTree hereName hentries
  obtain ⟨text, trimmed, hcontent, htrim, hget⟩ := hsame.replaced t hloaded helpKey _ rfl
  have htext : " Roll it.\n" = text := String.toByteArray_inj.mp hcontent
  subst htext
  have htrimmed : trimmed = "Roll it." := (trimsTo_iff.mp htrim).trans (by decide)
  refine ⟨t, hloaded, htrimmed ▸ hget, hsame.kept t hloaded aboutKey rfl,
    hkeys t ht aboutKey (by decide), ?_, ?_⟩
  · rw [honly, ht]
    rfl
  · rw [← hperm mixedEntries.reverse (List.reverse_perm _).symm (by decide), ht]
    rfl

end Texts

end DiceBot
