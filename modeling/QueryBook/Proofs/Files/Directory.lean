import QueryBook.Proofs.Catalog.History
import QueryBook.Proofs.Sorting
import QueryBook.Proofs.Text.Decoding

/-!
# Loading a directory

The system lists a directory in any order it likes. The files of queries are taken from the listing
in the order of the bytes of their names, so that the order of the listing shows nowhere: not in
what is read, nor in the error that is answered, nor in the definition that a name keeps
(`loadDirectory_anyOrder`). The name of a file need not be UTF-8; its source is named as the name is
shown, and two files may be shown alike.
-/

namespace QueryBook

namespace Files

/-! ## Names -/

/-- A name that is a text is shown as this text. -/
theorem Path.display_ofText (name : String) : (ofText name).display = name :=
  Text.Utf8.decodeLossy_encode name

/-- The extension stands behind the last dot of the name, and something stands before that dot. -/
def HasExtension (name extension : Path) : Prop :=
  ∃ stem ≠ [], Path.dot ∉ extension.bytes ∧ name.bytes = stem ++ Path.dot :: extension.bytes

theorem extension?_of_hasExtension {name extension : Path} (h : HasExtension name extension) :
    name.extension? = some extension := by
  obtain ⟨stem, hstem, hdot, hname⟩ := h
  have hreversed : name.bytes.reverse = extension.bytes.reverse ++ Path.dot :: stem.reverse := by
    rw [hname, List.reverse_append, List.reverse_cons, List.append_assoc, List.singleton_append]
  have hplain : ∀ b ∈ extension.bytes.reverse, (b != Path.dot) = true := by
    intro b hb
    rw [bne_iff_ne]
    rintro rfl
    exact hdot (List.mem_reverse.1 hb)
  obtain ⟨last, rest, hrest⟩ := List.exists_cons_of_ne_nil (mt List.reverse_eq_nil_iff.1 hstem)
  unfold Path.extension?
  simp only [hreversed, List.dropWhile_append_of_pos hplain, List.takeWhile_append_of_pos hplain,
    hrest]
  simp

theorem hasExtension_of_extension? {name extension : Path}
    (h : name.extension? = some extension) : HasExtension name extension := by
  unfold Path.extension? at h
  dsimp only at h
  split at h
  · rename_i dot last rest hfront
    cases h
    have hdot : dot = Path.dot := by
      have hstop := List.head_dropWhile_not (· != Path.dot)
        (hfront ▸ List.cons_ne_nil _ _ : name.bytes.reverse.dropWhile (· != Path.dot) ≠ [])
      simpa [hfront] using hstop
    subst hdot
    refine ⟨(last :: rest).reverse, by simp, ?_, ?_⟩
    · rw [List.mem_reverse]
      intro hmem
      exact absurd (List.mem_takeWhile_imp hmem) (by decide)
    · calc name.bytes
          = (name.bytes.reverse.takeWhile (· != Path.dot) ++ Path.dot :: last :: rest).reverse := by
            rw [← hfront, List.takeWhile_append_dropWhile, List.reverse_reverse]
        _ = (last :: rest).reverse ++
              Path.dot :: (name.bytes.reverse.takeWhile (· != Path.dot)).reverse := by
            simp
  · cases h

theorem extension?_eq_some_iff {name extension : Path} :
    name.extension? = some extension ↔ HasExtension name extension :=
  ⟨hasExtension_of_extension?, extension?_of_hasExtension⟩

theorem isQueryName_iff {name : Path} : isQueryName name = true ↔ HasExtension name "sql" :=
  beq_iff_eq.trans extension?_eq_some_iff

/-! ## Listings -/

/-- What the directory at a path holds can all be read: it is files and directories, each under a
name of its own and at a path that can be followed. -/
structure Legible (path : Path) (entries : Listing) : Prop where
  distinct : entries.Pairwise fun a b => a.1 ≠ b.1
  plain : ∀ e ∈ entries, (∃ bytes, e.2 = .file bytes) ∨ ∃ inside, e.2 = .directory inside
  near : ∀ e ∈ entries, (path.entry e.1).bytes.length ≤ maxPathBytes

variable {root : Node} {path : Path} {entries listed : Listing}

theorem Legible.of_perm (h : Legible path entries) (hperm : listed.Perm entries) :
    Legible path listed where
  distinct := hperm.symm.pairwise h.distinct fun hne => hne.symm
  plain := fun e he => h.plain e (hperm.mem_iff.1 he)
  near := fun e he => h.near e (hperm.mem_iff.1 he)

/-- All that can be read is listed. -/
theorem Legible.list_eq (h : Legible path listed) (hfind : find root path = .ok (.directory listed)) :
    list root path = .ok listed := by
  have hall : reachable path listed = listed :=
    List.filter_eq_self.2 fun e he => decide_eq_true (h.near e he)
  unfold list
  rw [hfind]
  exact congrArg Except.ok hall

theorem queryFile?_eq_some_iff {entry : Path × Node} {file : Path × Reading} :
    queryFile? entry = some file ↔ HasExtension entry.1 "sql" ∧ file.1 = entry.1 ∧
      ((∃ bytes, entry.2 = .file bytes ∧ file.2 = .ok bytes) ∨
        ∃ cause, entry.2 = .sealedFile cause ∧ file.2 = .error cause) := by
  obtain ⟨name, node⟩ := entry
  obtain ⟨label, reading⟩ := file
  unfold queryFile?
  dsimp only
  rw [← isQueryName_iff]
  by_cases hname : isQueryName name = true
  · rw [if_pos hname]
    cases node with
    | file bytes => simp [hname, eq_comm]
    | sealedFile cause => simp [hname, eq_comm]
    | directory inside => simp
    | socket => simp
  · rw [if_neg hname]
    simp [hname]

theorem mem_queryFiles {file : Path × Reading} :
    file ∈ queryFiles entries ↔ ∃ e ∈ entries, queryFile? e = some file := by
  unfold queryFiles
  rw [List.mem_mergeSort, List.mem_filterMap]

/-- Distinct names are brought into strictly ascending order. -/
theorem pairwise_queryFiles (h : entries.Pairwise fun a b => a.1 ≠ b.1) :
    (queryFiles entries).Pairwise fun a b => a.1.bytes < b.1.bytes := by
  refine pairwise_mergeSort_key (fun file : Path × Reading => file.1.bytes)
    (List.Pairwise.filterMap queryFile? ?_ h)
  intro e f hne a ha b hb hbytes
  rw [(queryFile?_eq_some_iff.1 ha).2.1, (queryFile?_eq_some_iff.1 hb).2.1] at hbytes
  exact hne (Path.ext hbytes)

/-- The order of the listing does not matter. -/
theorem queryFiles_eq_of_perm (h : entries.Pairwise fun a b => a.1 ≠ b.1)
    (hperm : listed.Perm entries) : queryFiles listed = queryFiles entries := by
  have hfiles : (listed.filterMap queryFile?).Perm (queryFiles entries) :=
    (hperm.filterMap _).trans (List.mergeSort_perm _ _).symm
  exact mergeSort_key_eq (fun file : Path × Reading => file.1.bytes) hfiles (pairwise_queryFiles h)

/-- Without sealed files all that is taken from a listing has been read. -/
theorem Legible.exists_files (h : Legible path entries) :
    ∃ files : List (Path × List UInt8),
      queryFiles entries = files.map (fun file => (file.1, .ok file.2)) := by
  have hread : queryFiles entries ∈
      Set.range (List.map fun file : Path × List UInt8 => (file.1, (.ok file.2 : Reading))) := by
    rw [Set.range_list_map]
    intro file hfile
    obtain ⟨e, he, hsome⟩ := mem_queryFiles.1 hfile
    obtain ⟨-, -, ⟨bytes, -, hbytes⟩ | ⟨cause, hsealed, -⟩⟩ := queryFile?_eq_some_iff.1 hsome
    · exact ⟨(file.1, bytes), Prod.ext rfl hbytes.symm⟩
    · rcases h.plain e he with ⟨_, hplain⟩ | ⟨_, hplain⟩
      · cases hplain.symm.trans hsealed
      · cases hplain.symm.trans hsealed
  obtain ⟨files, hfiles⟩ := hread
  exact ⟨files, hfiles.symm⟩

theorem mem_queryFiles_ok {name : Path} {bytes : List UInt8} :
    (name, .ok bytes) ∈ queryFiles entries ↔
      (name, .file bytes) ∈ entries ∧ HasExtension name "sql" := by
  rw [mem_queryFiles]
  constructor
  · rintro ⟨⟨label, node⟩, he, hsome⟩
    obtain ⟨hextension, rfl, ⟨_, rfl, hbytes⟩ | ⟨_, -, hsealed⟩⟩ := queryFile?_eq_some_iff.1 hsome
    · cases hbytes
      exact ⟨he, hextension⟩
    · cases hsealed
  · rintro ⟨he, hextension⟩
    exact ⟨_, he, queryFile?_eq_some_iff.2 ⟨hextension, rfl, .inl ⟨bytes, rfl, rfl⟩⟩⟩

/-- The order of files: that of the bytes of their names. -/
def Before (a b : Path × List UInt8) : Prop :=
  a.1.bytes < b.1.bytes

instance : Std.Irrefl Before where
  irrefl _ := List.lt_irrefl _

instance : Std.Antisymm Before where
  antisymm _ _ hab hba := absurd (List.lt_trans hab hba) (List.lt_irrefl _)

/-! ## Files and the sources in them -/

/-- Bytes that are UTF-8. -/
def IsText (bytes : List UInt8) : Prop :=
  ∃ text, Text.Utf8.encode text = bytes

/-- A file of text. -/
structure TextFile where
  name : Path
  text : String

namespace TextFile

/-- The file as the system keeps it. -/
def raw (f : TextFile) : Path × List UInt8 :=
  (f.name, Text.Utf8.encode f.text)

/-- The source in the file. -/
def source (f : TextFile) : Source :=
  ⟨f.name.display, f.text⟩

/-- What the source in the file defines. -/
def definitions (f : TextFile) : List Query :=
  f.source.definitions

end TextFile

/-- Files that are UTF-8 are files of text. -/
theorem exists_map_raw {files : List (Path × List UInt8)} (h : ∀ file ∈ files, IsText file.2) :
    ∃ texts : List TextFile, texts.map TextFile.raw = files := by
  have hrange : files ∈ Set.range (List.map TextFile.raw) := by
    rw [Set.range_list_map]
    intro f hf
    obtain ⟨text, htext⟩ := h f hf
    exact ⟨⟨f.1, text⟩, Prod.ext rfl htext⟩
  exact hrange

end Files

namespace Source

open Files (IsText TextFile)

theorem ofBytes_encode (name text : String) :
    ofBytes name (Text.Utf8.encode text) = .ok ⟨name, text⟩ := by
  have hdecode : Text.Utf8.decode (Text.Utf8.encode text) = .ok text :=
    Text.Utf8.decode_eq_ok_iff.2 rfl
  unfold ofBytes
  rw [hdecode]

theorem ofBytes_of_not_isText (name : String) {bytes : List UInt8} (h : ¬ IsText bytes) :
    ofBytes name bytes = .error (.notUtf8 name) := by
  unfold ofBytes
  cases hdecode : Text.Utf8.decode bytes with
  | error fault => rfl
  | ok read => exact absurd ⟨read, Text.Utf8.decode_eq_ok_iff.1 hdecode⟩ h

/-- What is read from files of text are the sources in them. -/
theorem ofFiles_map_raw (directory : Files.Path) (texts : List TextFile) :
    ofFiles directory ((texts.map TextFile.raw).map fun file => (file.1, .ok file.2)) =
      .ok (texts.map TextFile.source) := by
  induction texts with
  | nil => rfl
  | cons f rest ih =>
    simp only [List.map_cons, ofFiles, ofReading, TextFile.raw, ofBytes_encode] at ih ⊢
    rw [ih]
    rfl

/-- The first file that is not UTF-8 decides. -/
theorem ofFiles_of_not_isText (directory : Files.Path)
    {before after : List (Files.Path × List UInt8)} {file : Files.Path × List UInt8}
    (hbefore : ∀ f ∈ before, IsText f.2) (h : ¬ IsText file.2) :
    ofFiles directory ((before ++ file :: after).map fun file => (file.1, .ok file.2)) =
      .error (.notUtf8 file.1.display) := by
  induction before with
  | nil =>
    simp only [List.nil_append, List.map_cons, ofFiles, ofReading, ofBytes_of_not_isText _ h]
  | cons f rest ih =>
    rw [List.forall_mem_cons] at hbefore
    obtain ⟨text, htext⟩ := hbefore.1
    simp only [List.cons_append, List.map_cons, ofFiles, ofReading, ← htext, ofBytes_encode,
      ih hbefore.2]

end Source

/-! ## Which definition stays -/

theorem Query.not_lastIn_nil (q : Query) : ¬ q.LastIn [] := by
  rintro ⟨before, after, hlist, -⟩
  simp at hlist

theorem Query.lastIn_append {q : Query} {first second : List Query} :
    q.LastIn (first ++ second) ↔
      q.LastIn second ∨ q.LastIn first ∧ ∀ r ∈ second, r.name ≠ q.name := by
  induction first with
  | nil => simp [not_lastIn_nil]
  | cons r rest ih =>
    rw [List.cons_append, lastIn_cons, lastIn_cons, ih, List.forall_mem_append]
    tauto

/-- The query is the last of its name in a file, and no file of a greater name defines the name. -/
def Query.FromGreatest (q : Query) (files : List Files.TextFile) : Prop :=
  ∃ file ∈ files, q.LastIn file.definitions ∧
    ∀ other ∈ files, (∃ r ∈ other.definitions, r.name = q.name) →
      other = file ∨ other.name.bytes < file.name.bytes

/-- In files of ascending names the last definition of a name is the one from the file with the
greatest name. -/
theorem Query.lastIn_flatMap_iff {q : Query} {files : List Files.TextFile}
    (h : files.Pairwise fun a b => a.name.bytes < b.name.bytes) :
    q.LastIn (files.flatMap Files.TextFile.definitions) ↔ q.FromGreatest files := by
  induction files with
  | nil =>
    refine iff_of_false q.not_lastIn_nil ?_
    rintro ⟨file, hfile, -⟩
    simp at hfile
  | cons first rest ih =>
    rw [List.pairwise_cons] at h
    rw [List.flatMap_cons, lastIn_append, ih h.2]
    constructor
    · rintro (⟨file, hfile, hlast, hgreatest⟩ | ⟨hlast, hnone⟩)
      · refine ⟨file, List.mem_cons_of_mem _ hfile, hlast, ?_⟩
        intro other hother hdefines
        rcases List.mem_cons.1 hother with rfl | hother
        · exact .inr (h.1 file hfile)
        · exact hgreatest other hother hdefines
      · refine ⟨first, List.mem_cons_self, hlast, ?_⟩
        rintro other hother ⟨r, hr, hname⟩
        rcases List.mem_cons.1 hother with rfl | hother
        · exact .inl rfl
        · exact absurd hname (hnone r (List.mem_flatMap.2 ⟨other, hother, hr⟩))
    · rintro ⟨file, hfile, hlast, hgreatest⟩
      rcases List.mem_cons.1 hfile with rfl | hfile
      · refine .inr ⟨hlast, ?_⟩
        intro r hr hname
        -- a file behind the first one is not less than it
        obtain ⟨other, hother, hr⟩ := List.mem_flatMap.1 hr
        have hgreater := h.1 other hother
        rcases hgreatest other (List.mem_cons_of_mem _ hother) ⟨r, hr, hname⟩ with rfl | hless
        · exact List.lt_irrefl _ hgreater
        · exact List.lt_irrefl _ (List.lt_trans hgreater hless)
      · refine .inl ⟨file, hfile, hlast, ?_⟩
        intro other hother hdefines
        exact hgreatest other (List.mem_cons_of_mem _ hother) hdefines

/-! ## Loading -/

namespace Loading

/-- Every catalog answers the call with the error and stays as it is. -/
def FailsWith (call : Loading) (e : LoadError) : Prop :=
  ∀ c, call.answer c = .error e ∧ call.after c = c

/-- Every catalog takes the queries of the files: a name that some file defines stands for its
definition in the file with the greatest name, any other name for what it stood for before. -/
def Adopts (call : Loading) (files : List Files.TextFile) : Prop :=
  ∀ c, call.answer c = .ok (call.after c).size ∧
    ∀ name q, (call.after c).lookup name = .ok q ↔
      q.name = name ∧ q.FromGreatest files ∨
        c.lookup name = .ok q ∧ ∀ file ∈ files, ∀ r ∈ file.definitions, r.name ≠ name

theorem failsWith_of_perform {call : Loading} {e : LoadError}
    (h : ∀ c, call.perform c = .error e) : call.FailsWith e := by
  intro c
  unfold answer after
  rw [h c]
  exact ⟨rfl, rfl⟩

variable {call : Loading} {files : List Files.TextFile}

/-- The first file that cannot be parsed decides. -/
theorem failsWith_of_load (h : ∀ c, call.perform c = c.load (files.map Files.TextFile.source))
    {before after : List Files.TextFile} {file : Files.TextFile} {e : LoadError}
    (hfiles : files = before ++ file :: after) (hbefore : ∀ f ∈ before, f.source.error? = none)
    (he : file.source.error? = some e) : call.FailsWith e := by
  have hnone : (before.map Files.TextFile.source).findSome? Source.error? = none :=
    List.findSome?_eq_none_iff.2 (List.forall_mem_map.2 hbefore)
  have hfirst : (files.map Files.TextFile.source).findSome? Source.error? = some e := by
    rw [hfiles, List.map_append, List.map_cons, List.findSome?_append, hnone, List.findSome?_cons, he]
    rfl
  refine failsWith_of_perform fun c => ?_
  rw [h, load_eq, hfirst]

theorem adopts_of_load (h : ∀ c, call.perform c = c.load (files.map Files.TextFile.source))
    (hascending : files.Pairwise fun a b => a.name.bytes < b.name.bytes)
    (hfiles : ∀ f ∈ files, f.source.error? = none) : call.Adopts files := by
  intro c
  have hperform : call.perform c =
      .ok (c.insertAll (files.flatMap Files.TextFile.definitions)) := by
    rw [h, load_eq, List.findSome?_eq_none_iff.2 (List.forall_mem_map.2 hfiles), List.flatMap_map]
    rfl
  have hafter : call.after c = c.insertAll (files.flatMap Files.TextFile.definitions) := by
    unfold after
    rw [hperform]
  refine ⟨?_, fun name q => ?_⟩
  · unfold answer
    rw [hperform, hafter]
    rfl
  · rw [hafter, Catalog.lookup_eq_ok_iff, Catalog.get?_insertAll_eq_some_iff,
      Query.lastIn_flatMap_iff hascending, Catalog.lookup_eq_ok_iff, List.forall_mem_flatMap]

end Loading

/-- Whatever a directory holds, as long as it can be read: the files whose extension is `sql` stand
in strictly ascending order of the bytes of their names, and however the directory is listed, its
sources are those in these files, each named as its file is shown; a name that is a text is shown as it
is. If one of the files is not UTF-8, the first such file is the error, both of reading and of loading.
Otherwise the first file that cannot be parsed is the error of loading, and without one a name keeps its
definition from the greatest file that defines it. A catalog stays as it is if loading fails. -/
theorem loadDirectory_anyOrder (path : Files.Path) (entries : Files.Listing)
    (h : Files.Legible path entries) :
    (∀ name : String, (Files.Path.ofText name).display = name) ∧
      ∃ files : List (Files.Path × List UInt8),
        files.Pairwise Files.Before ∧
        (∀ name bytes, (name, bytes) ∈ files ↔
          (name, .file bytes) ∈ entries ∧ Files.HasExtension name "sql") ∧
        ∀ (root : Files.Node) (listed : Files.Listing), listed.Perm entries →
          Files.find root path = .ok (.directory listed) →
          (∀ before file after, files = before ++ file :: after →
            (∀ f ∈ before, Files.IsText f.2) → ¬ Files.IsText file.2 →
            Source.ofDirectory root path = .error (.notUtf8 file.1.display) ∧
              (Loading.directory root path).FailsWith (.notUtf8 file.1.display)) ∧
          ((∀ f ∈ files, Files.IsText f.2) →
            ∃ texts, texts.map Files.TextFile.raw = files ∧
              Source.ofDirectory root path = .ok (texts.map Files.TextFile.source) ∧
              (∀ before file after e, texts = before ++ file :: after →
                (∀ f ∈ before, f.source.error? = none) → file.source.error? = some e →
                (Loading.directory root path).FailsWith e) ∧
              ((∀ f ∈ texts, f.source.error? = none) →
                (Loading.directory root path).Adopts texts)) := by
  obtain ⟨files, hfiles⟩ := h.exists_files
  have hascending : files.Pairwise Files.Before := by
    have hnames := Files.pairwise_queryFiles h.distinct
    rwa [hfiles, List.pairwise_map] at hnames
  refine ⟨Files.Path.display_ofText, files, hascending, fun name bytes => ?_, ?_⟩
  · rw [← Files.mem_queryFiles_ok, hfiles]
    simp
  intro root listed hperm hfind
  have hread : Source.ofDirectory root path =
      Source.ofFiles path (files.map fun file => (file.1, .ok file.2)) := by
    unfold Source.ofDirectory
    rw [(h.of_perm hperm).list_eq hfind]
    show Source.ofFiles path (Files.queryFiles listed) = _
    rw [Files.queryFiles_eq_of_perm h.distinct hperm, hfiles]
  constructor
  · rintro before file after rfl hbefore hfile
    have herror := hread.trans (Source.ofFiles_of_not_isText path hbefore hfile)
    refine ⟨herror, Loading.failsWith_of_perform fun c => ?_⟩
    show c.loadDirectory root path = _
    unfold Catalog.loadDirectory
    rw [herror]
  · intro htext
    obtain ⟨texts, rfl⟩ := Files.exists_map_raw htext
    have hok := hread.trans (Source.ofFiles_map_raw path texts)
    have hload : ∀ c, (Loading.directory root path).perform c =
        c.load (texts.map Files.TextFile.source) := by
      intro c
      show c.loadDirectory root path = _
      unfold Catalog.loadDirectory
      rw [hok]
    rw [List.pairwise_map] at hascending
    refine ⟨texts, rfl, hok, ?_, Loading.adopts_of_load hload hascending⟩
    intro before file after e
    exact Loading.failsWith_of_load hload

/-- A name that is not UTF-8. -/
def oddName : Files.Path :=
  ⟨[0x61, 0xFF, 0x2E, 0x73, 0x71, 0x6C]⟩

/-- A file that cannot be parsed, two that are not UTF-8, the first of them under a name that is not
UTF-8 either, and what is no file of queries: a directory, a file whose name begins with its only dot,
and files with other extensions. -/
def shelf : Files.Listing :=
  [("a.sql", .file (Text.Utf8.encode "-- name:\n")), ("b.sql", .directory []),
    (".sql", .file [0xFF]), ("A.SQL", .file [0xFF]), ("c.d.sql", .file [0xFF]),
    (oddName, .file [0xFE]), ("notes.txt", .file [])]

theorem mem_shelf_iff (name : Files.Path) (bytes : List UInt8) :
    (name, .file bytes) ∈ shelf ∧ Files.HasExtension name "sql" ↔
      (name, bytes) ∈ [(.ofText "a.sql", Text.Utf8.encode "-- name:\n"), (oddName, [0xFE]),
        ("c.d.sql", [0xFF])] := by
  rw [← Files.isQueryName_iff]
  have hhidden : Files.isQueryName ".sql" ≠ true := by decide +kernel
  have hcapital : Files.isQueryName "A.SQL" ≠ true := by decide +kernel
  have hnotes : Files.isQueryName "notes.txt" ≠ true := by decide +kernel
  have hplain : Files.isQueryName "a.sql" = true := by decide +kernel
  have hodd : Files.isQueryName oddName = true := by decide +kernel
  have hdots : Files.isQueryName "c.d.sql" = true := by decide +kernel
  simp only [shelf, List.mem_cons, Prod.mk.injEq, Files.Node.file.injEq, List.not_mem_nil, or_false,
    reduceCtorEq, and_false, false_or]
  constructor
  · rintro ⟨⟨rfl, rfl⟩ | ⟨rfl, -⟩ | ⟨rfl, -⟩ | ⟨rfl, rfl⟩ | ⟨rfl, rfl⟩ | ⟨rfl, -⟩, hname⟩
    · exact .inl ⟨rfl, rfl⟩
    · exact absurd hname hhidden
    · exact absurd hname hcapital
    · exact .inr (.inr ⟨rfl, rfl⟩)
    · exact .inr (.inl ⟨rfl, rfl⟩)
    · exact absurd hname hnotes
  · rintro (⟨rfl, rfl⟩ | ⟨rfl, rfl⟩ | ⟨rfl, rfl⟩)
    · exact ⟨.inl ⟨rfl, rfl⟩, hplain⟩
    · exact ⟨.inr (.inr (.inr (.inr (.inl ⟨rfl, rfl⟩)))), hodd⟩
    · exact ⟨.inr (.inr (.inr (.inl ⟨rfl, rfl⟩))), hdots⟩

/-- The shelf in the reverse order, as the directory `sql`. -/
def shelfRoot : Files.Node :=
  .directory [("sql", .directory shelf.reverse)]

theorem loadDirectory_shelf :
    Files.Legible "sql" shelf ∧ shelf.reverse.Perm shelf ∧
      Files.find shelfRoot "sql" = .ok (.directory shelf.reverse) ∧
      Source.ofDirectory shelfRoot "sql" = .error (.notUtf8 "a\uFFFD.sql") ∧
      (Loading.directory shelfRoot "sql").FailsWith (.notUtf8 "a\uFFFD.sql") := by
  have hlegible : Files.Legible "sql" shelf :=
    { distinct := by decide +kernel
      plain := by simp [shelf]
      near := by decide +kernel }
  have hperm : shelf.reverse.Perm shelf := shelf.reverse_perm
  have hfind : Files.find shelfRoot "sql" = .ok (.directory shelf.reverse) := by cbv
  have hshown : oddName.display = "a\uFFFD.sql" := by decide +kernel
  obtain ⟨-, files, hascending, hmem, hany⟩ := loadDirectory_anyOrder "sql" shelf hlegible
  have hfiles : files = [(.ofText "a.sql", Text.Utf8.encode "-- name:\n")] ++
      (oddName, [0xFE]) :: [("c.d.sql", [0xFF])] := by
    refine hascending.eq_of_mem_iff ?_ fun f => (hmem f.1 f.2).trans (mem_shelf_iff f.1 f.2)
    unfold Files.Before
    decide +kernel
  have htext : ∀ f ∈ [(Files.Path.ofText "a.sql", Text.Utf8.encode "-- name:\n")],
      Files.IsText f.2 := by
    simp [Files.IsText]
  have hbytes : ¬ Files.IsText [0xFE] := by
    rintro ⟨text, htext⟩
    have hdecode := Text.Utf8.decode_eq_ok_iff.2 htext
    cases hdecode
  obtain ⟨hread, hload⟩ := (hany shelfRoot shelf.reverse hperm hfind).1 _ _ _ hfiles htext hbytes
  rw [hshown] at hread hload
  exact ⟨hlegible, hperm, hfind, hread, hload⟩

end QueryBook
