import QueryFilter.Proofs.Bytes
import QueryFilter.Proofs.Sorting
import QueryFilter.Schema.Loader

/-!
# Loading a folder

The entries of a folder are listed in any order, and only some of them are definitions. These are
read in the order of their names up to the first bad one. Whatever lies in the folder besides them
does not matter, and what was read before the bad one is kept.

* `HasExtension` and `isDefinitionName_iff`: the names of definition files;
* `Holds` and `Refuses`: the schema that a file holds, or the error that it gives;
* `readAll_cases`: reading some files holds on to a prefix of them;
* `loadAll_reads`: what is loaded from a folder, by its definition files alone.
-/

namespace QueryFilter.Loader

open FileTree

/-! ### Definition files -/

/-- Whether a name has an extension: it has no dot itself and follows a dot, before which something
comes. -/
def HasExtension (name : List UInt8) (extension : String) : Prop :=
  '.' ∉ extension.toList ∧ ∃ stem ≠ [], name = stem ++ Text.bytes ("." ++ extension)

theorem isDefinitionName_iff {name : List UInt8} :
    isDefinitionName name ↔ HasExtension name "json" := by
  have hdot : '.' ∉ "json".toList := by decide
  have hlength : (Text.bytes ".json").length = 5 := by decide
  rw [isDefinitionName, Bool.and_eq_true, List.isSuffixOf_iff_suffix, decide_eq_true_iff]
  constructor
  · rintro ⟨⟨stem, rfl⟩, hlong⟩
    refine ⟨hdot, stem, ?_, rfl⟩
    rintro rfl
    rw [List.nil_append, hlength] at hlong
    exact absurd hlong (Nat.lt_irrefl 5)
  · rintro ⟨-, stem, hstem, rfl⟩
    refine ⟨List.suffix_append _ _, ?_⟩
    rw [List.length_append]
    exact Nat.lt_add_of_pos_left (List.length_pos_of_ne_nil hstem)

theorem mem_definitionFiles_iff {entries : Listing} {f : List UInt8 × Node} :
    f ∈ definitionFiles entries ↔ f ∈ entries ∧ HasExtension f.1 "json" := by
  rw [definitionFiles, (Text.sortByKey_perm _ _).mem_iff, List.mem_filter, isDefinitionName_iff]

/-- Definition files are in the order of the bytes of their names. -/
theorem sorted_definitionFiles {entries : Listing} (h : (entries.map (·.1)).Nodup) :
    ((definitionFiles entries).map (·.1)).Pairwise (· < ·) :=
  Text.sorted_sortByKey_of_nodup (h.sublist (List.filter_sublist.map _))

/-- The definition files do not depend on the order of the listing, nor on its other entries. -/
theorem definitionFiles_congr {entries others : Listing} (h : (entries.map (·.1)).Nodup)
    (h' : (others.map (·.1)).Nodup)
    (hsame : ∀ f, f ∈ definitionFiles entries ↔ f ∈ definitionFiles others) :
    definitionFiles entries = definitionFiles others :=
  Text.eq_of_sorted_of_mem_iff (List.pairwise_map.1 (sorted_definitionFiles h))
    (List.pairwise_map.1 (sorted_definitionFiles h')) hsame

/-! ### Files -/

/-- Whether a file holds a schema: its text spells a definition, and that stands for the schema. -/
def Holds (n : Node) (e : Entity) : Prop :=
  ∃ text d, n.text? = some text ∧ Entity.Definition.ofText? text = some d ∧
    Entity.ofDefinition d = .ok e

/-- The error that a file gives when it holds no schema. The file itself is the source, unless its
definition is read. -/
inductive Refuses (source : String) (n : Node) : SchemaError → Prop
  | unreadable : n.text? = none → Refuses source n (.malformed source none .unreadableFile)
  | invalid {text : String} : n.text? = some text → Entity.Definition.ofText? text = none →
    Refuses source n (.malformed source none .invalidJson)
  | rejected {text : String} {d : Entity.Definition} {err : SchemaError} :
    n.text? = some text → Entity.Definition.ofText? text = some d →
    Entity.ofDefinition d = .error err → Refuses source n err

theorem readSchema_eq_ok_iff {source : String} {n : Node} {e : Entity} :
    readSchema source n = .ok e ↔ Holds n e := by
  unfold readSchema Holds
  cases n.text? with
  | none => simp
  | some text => cases hd : Entity.Definition.ofText? text <;> simp [hd]

theorem readSchema_eq_error_iff {source : String} {n : Node} {err : SchemaError} :
    readSchema source n = .error err ↔ Refuses source n err := by
  constructor
  · intro h
    unfold readSchema at h
    split at h
    · cases h
      exact .unreadable ‹_›
    · split at h
      · cases h
        exact .invalid ‹_› ‹_›
      · exact .rejected ‹_› ‹_› h
  · rintro (htext | ⟨htext, hd⟩ | ⟨htext, hd, herr⟩)
    · rw [readSchema, htext]
    · simp only [readSchema, htext, hd]
    · simp only [readSchema, htext, hd, herr]

/-- A file that gives an error holds no schema. -/
theorem Refuses.not_holds {source : String} {n : Node} {err : SchemaError}
    (h : Refuses source n err) : ¬∃ e, Holds n e := by
  rintro ⟨e, he⟩
  cases (readSchema_eq_error_iff.2 h).symm.trans (readSchema_eq_ok_iff.2 he)

/-! ### Reading and loading -/

/-- Add schemas in their order. -/
def addAll (l : Loader) (es : List Entity) : Loader := { l with schemas := l.schemas ++ es }

theorem addAll_nil (l : Loader) : l.addAll [] = l := by rw [addAll, List.append_nil]

theorem addAll_add (l : Loader) (e : Entity) (es : List Entity) :
    (l.add e).addAll es = l.addAll (e :: es) := by
  simp only [addAll, add, List.append_assoc, List.singleton_append]

theorem exists_holds_of_forall₂ {files : Listing} {es : List Entity}
    (h : List.Forall₂ (fun f e => Holds f.2 e) files es) : ∀ f ∈ files, ∃ e, Holds f.2 e := by
  induction h with
  | nil => exact nofun
  | cons hf _ ih => exact List.forall_mem_cons.2 ⟨⟨_, hf⟩, ih⟩

/-- Reading files goes on as long as they hold schemas, which are kept, and ends with the error of
the first file that holds none. -/
theorem readAll_cases (l : Loader) (files : Listing) :
    ∃ good rest es, files = good ++ rest ∧ List.Forall₂ (fun f e => Holds f.2 e) good es ∧
      (rest = [] ∧ l.readAll files = (.ok (), l.addAll es) ∨
        ∃ bad later err, rest = bad :: later ∧
          Refuses (joinPath l.folder (Text.ofBytes bad.1)) bad.2 err ∧
          l.readAll files = (.error err, l.addAll es)) := by
  induction files generalizing l with
  | nil => exact ⟨[], [], [], rfl, .nil, .inl ⟨rfl, by rw [readAll, addAll_nil]⟩⟩
  | cons f files ih =>
    obtain ⟨name, n⟩ := f
    rw [readAll]
    cases hn : readSchema (joinPath l.folder (Text.ofBytes name)) n with
    | error err =>
      refine ⟨[], (name, n) :: files, [], rfl, .nil, .inr ⟨(name, n), files, err, rfl, ?_, ?_⟩⟩
      · exact readSchema_eq_error_iff.1 hn
      · rw [addAll_nil]
    | ok e =>
      -- the schema comes before those of the other files
      obtain ⟨good, rest, es, rfl, hgood, hrest⟩ := ih (l.add e)
      rw [addAll_add] at hrest
      exact ⟨(name, n) :: good, rest, e :: es, rfl, .cons (readSchema_eq_ok_iff.1 hn) hgood, hrest⟩

/-- The line with the number of the definition files. -/
def loadedRecord (l : Loader) (files : Listing) : Log.Record :=
  Log.Event.schemasLoaded.record
    [("count", toString files.length), ("schema_dir", l.folder)]

theorem loadAll_of_ok {l : Loader} {entries : Listing} {es : List Entity}
    (h : l.readAll (definitionFiles entries) = (.ok (), l.addAll es)) :
    l.loadAll (some entries) =
      ⟨.ok (), l.addAll es, [l.loadedRecord (definitionFiles entries)]⟩ := by
  simp only [loadAll, h]
  rfl

theorem loadAll_of_error {l l' : Loader} {entries : Listing} {err : SchemaError}
    (h : l.readAll (definitionFiles entries) = (.error err, l')) :
    l.loadAll (some entries) = ⟨.error err, l', []⟩ := by
  simp only [loadAll, h]

/-- **What is loaded from a folder.** Let the definition files be the entries of the folder with the
extension `json`, in the order of the bytes of their names. Loading succeeds exactly if each of them
holds a schema. The schemas of the files before the first one that holds none are added to those
that the loader has, in order, one for each file. If there is such a file, its error is given and
nothing is logged; otherwise one line with the number of the files is logged. Another folder with
the same definition files is loaded in the same way, whatever else is in it. -/
theorem loadAll_reads (l : Loader) {entries : Listing} (hnames : (entries.map (·.1)).Nodup) :
    let loaded := l.loadAll (some entries)
    ∃ files : Listing,
      (∀ f, f ∈ files ↔ f ∈ entries ∧ HasExtension f.1 "json") ∧
      (files.map (·.1)).Pairwise (· < ·) ∧
      (loaded.result = .ok () ↔ ∀ f ∈ files, ∃ e, Holds f.2 e) ∧
      (∃ good rest es, files = good ++ rest ∧ List.Forall₂ (fun f e => Holds f.2 e) good es ∧
        loaded.loader = { l with schemas := l.schemas ++ es } ∧
        (rest = [] ∧ loaded.result = .ok () ∧ loaded.records = [l.loadedRecord files] ∨
          ∃ bad later err, rest = bad :: later ∧
            Refuses (joinPath l.folder (Text.ofBytes bad.1)) bad.2 err ∧
            loaded.result = .error err ∧ loaded.records = [])) ∧
      ∀ others : Listing, (others.map (·.1)).Nodup →
        (∀ f, f ∈ files ↔ f ∈ others ∧ HasExtension f.1 "json") →
        l.loadAll (some others) = loaded := by
  intro loaded
  obtain ⟨good, rest, es, hsplit, hgood, hrest⟩ := l.readAll_cases (definitionFiles entries)
  refine ⟨definitionFiles entries, fun f => mem_definitionFiles_iff, sorted_definitionFiles hnames,
    ?_, ⟨good, rest, es, hsplit, hgood, ?_⟩, fun others hothers hsame => ?_⟩
  · rcases hrest with ⟨rfl, hread⟩ | ⟨bad, later, err, rfl, hbad, hread⟩
    · rw [hsplit, List.append_nil]
      exact iff_of_true (congrArg Loaded.result (loadAll_of_ok hread))
        (exists_holds_of_forall₂ hgood)
    · have herror : loaded.result = .error err := congrArg Loaded.result (loadAll_of_error hread)
      have hmem : bad ∈ definitionFiles entries := hsplit ▸ by simp
      rw [herror]
      exact iff_of_false nofun fun hall => hbad.not_holds (hall bad hmem)
  · rcases hrest with ⟨rfl, hread⟩ | ⟨bad, later, err, rfl, hbad, hread⟩
    · have hloaded := loadAll_of_ok hread
      exact ⟨congrArg Loaded.loader hloaded, .inl ⟨rfl, congrArg Loaded.result hloaded,
        congrArg Loaded.records hloaded⟩⟩
    · have hloaded := loadAll_of_error hread
      exact ⟨congrArg Loaded.loader hloaded, .inr ⟨bad, later, err, rfl, hbad,
        congrArg Loaded.result hloaded, congrArg Loaded.records hloaded⟩⟩
  · have hfiles := definitionFiles_congr hnames hothers fun f =>
      (hsame f).trans mem_definitionFiles_iff.symm
    simp only [loaded, loadAll, hfiles]

/-- A folder with a folder among its definition files, whose name comes before one of the files and
behind the other. The first file is loaded, and then the folder is an error. It would be so without
the other entries, too. -/
theorem loadAll_reads_city :
    let city : Node := .file "\x7b\"name\": \"City\", \"attributes\": []\x7d".toUTF8
    let entries : Listing := [(Text.bytes "town.json", city), (Text.bytes "notes.txt", city),
      (Text.bytes "Zoo.json", .folder), (Text.bytes "City.json", city), (Text.bytes ".json", city)]
    let loaded := (start "schemas").loadAll (some entries)
    (entries.map (·.1)).Nodup ∧ loaded.result ≠ .ok () ∧ loaded.records = [] ∧
      loaded.loader.schemas = [.entity "City"] ∧
      (start "schemas").loadAll (some (entries.filter fun f => isDefinitionName f.1)) = loaded := by
  intro city entries loaded
  have hnames : (entries.map (·.1)).Nodup := by decide
  obtain ⟨files, hfiles, -, hok, hcases, hothers⟩ := loadAll_reads (start "schemas") hnames
  have hbad : loaded.result ≠ .ok () := by
    intro h
    have hzoo : (Text.bytes "Zoo.json", Node.folder) ∈ files :=
      (hfiles _).2 ⟨by simp [entries], isDefinitionName_iff.1 (by decide)⟩
    obtain ⟨e, text, d, htext, -⟩ := hok.1 h _ hzoo
    cases htext
  refine ⟨hnames, hbad, ?_, by decide +kernel, hothers _ ?_ fun f => (hfiles f).trans ?_⟩
  · obtain ⟨good, rest, es, -, -, -, ⟨-, hresult, -⟩ | ⟨_, _, _, -, -, -, hrecords⟩⟩ := hcases
    · exact absurd hresult hbad
    · exact hrecords
  · exact hnames.sublist (List.filter_sublist.map _)
  · rw [List.mem_filter, isDefinitionName_iff]
    exact iff_self_and.2 And.right

end QueryFilter.Loader
