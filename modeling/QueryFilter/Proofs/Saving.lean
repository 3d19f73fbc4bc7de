import QueryFilter.Proofs.Bytes
import QueryFilter.Proofs.Definitions
import QueryFilter.Proofs.Except
import QueryFilter.Proofs.FileTree
import QueryFilter.Proofs.Registry
import QueryFilter.Proofs.Sorting
import QueryFilter.Proofs.Walk

/-!
# Schemas that are saved and loaded

A schema is saved under a path that is made of its type name, whatever that is, and loaded from the
definition files in the folder. Both agree on the texts of the files. They agree on the files as
long as the path of each schema leads to a definition file of its own in the folder, which it does
when the name is not empty and has no slash.

* `readSchema_fileOf`: a schema is read back from the file in which it was saved;
* `list?_of_saveAll?`: what lies in the folder after schemas have been saved;
* `load_saved`: which schemas are loaded, and that none is lost or changed exactly if each has a
  definition file of its own.
-/

namespace QueryFilter.Loader

open FileTree

variable {l : Loader} {t t' : FileTree} {e : Entity} {es : List Entity}

/-! ### Files of schemas -/

/-- The file of a schema. -/
def fileOf (e : Entity) : Node := .file (fileText e).toUTF8

/-- A schema that its definition stands for is read back from its file. -/
theorem readSchema_fileOf (h : Entity.ofDefinition e.definition = .ok e) (source : String) :
    readSchema source (fileOf e) = .ok e := by
  have htext : (fileOf e).text? = some (fileText e) := Text.fromUTF8?_toUTF8 _
  rw [readSchema, htext]
  dsimp only
  rw [fileText, Entity.Definition.ofText?_pretty]
  exact h

/-- Files of schemas are all read, in their order. -/
theorem readAll_fileOf {xs : List (String × Entity)}
    (h : ∀ x ∈ xs, Entity.ofDefinition x.2.definition = .ok x.2) (l : Loader) :
    l.readAll (xs.map (Prod.map Text.bytes fileOf)) =
      (.ok (), { l with schemas := l.schemas ++ xs.map (·.2) }) := by
  induction xs generalizing l with
  | nil => simp [readAll]
  | cons x xs ih =>
    rw [List.map_cons, Prod.map, readAll, readSchema_fileOf (h x List.mem_cons_self)]
    dsimp only
    rw [ih fun y hy => h y (List.mem_cons_of_mem x hy), add, List.map_cons, List.append_assoc,
      List.singleton_append]

/-- The definition files are in the order of their names, which is that of the bytes. -/
theorem definitionFiles_fileOf (xs : List (String × Entity)) :
    definitionFiles (xs.map (Prod.map Text.bytes fileOf)) =
      (Text.sortByKey (·.1) (xs.filter fun x => isDefinitionFile x.1)).map
        (Prod.map Text.bytes fileOf) := by
  rw [definitionFiles, List.filter_map, Text.sortByKey_map]
  exact congrArg _ (Text.sortByKey_congr (fun _ _ => Text.bytes_lt_bytes_iff) _)

/-! ### Saving -/

/-- The files after a schema was saved; none when it cannot be saved. -/
def save? (l : Loader) (t : FileTree) (e : Entity) : Option FileTree :=
  match l.save e t with
  | (.ok _, t) => some t
  | (.error _, _) => none

/-- The files after schemas were saved one after the other; none when one of them cannot be
saved. -/
def saveAll? (l : Loader) (es : List Entity) (t : FileTree) : Option FileTree :=
  es.foldlM l.save? t

/-- The name in the folder to which the path of a schema leads. -/
def nameOf? (l : Loader) (t : FileTree) (e : Entity) : Option String :=
  t.locate? (l.pathOf e) >>= nameIn? l.folder

/-- The definition file in the folder to which the path of a schema leads. -/
def definitionFile? (l : Loader) (t : FileTree) (e : Entity) : Option String :=
  (l.nameOf? t e).filter isDefinitionFile

theorem nameOf?_congr (h : t.isFolder = t'.isFolder) : l.nameOf? t = l.nameOf? t' := by
  funext e
  rw [nameOf?, nameOf?, locate?_congr h]

theorem save?_eq (l : Loader) (t : FileTree) (e : Entity) :
    l.save? t e = (t.makeFolder l.folder).write? (l.pathOf e) (fileText e).toUTF8 := by
  unfold save? save
  dsimp only
  cases (t.makeFolder l.folder).write? (l.pathOf e) (fileText e).toUTF8 <;> rfl

theorem saveAll?_cons (l : Loader) (e : Entity) (es : List Entity) (t : FileTree) :
    l.saveAll? (e :: es) t = l.save? t e >>= l.saveAll? es := List.foldlM_cons

/-- The folder may be made before. -/
theorem saveAll?_makeFolder (hfolder : (t.makeFolder l.folder).isFolder [l.folder])
    (h : es ≠ [] ∨ t.isFolder [l.folder]) :
    l.saveAll? es (t.makeFolder l.folder) = l.saveAll? es t := by
  rcases h with h | h
  · obtain ⟨e, es, rfl⟩ := List.exists_cons_of_ne_nil h
    rw [saveAll?_cons, saveAll?_cons, save?_eq, save?_eq, makeFolder_of_isFolder hfolder]
  · rw [makeFolder_of_isFolder h]

/-- A schema that is saved into a folder that exists is a file that is put at the end of its path,
and no folder changes. -/
theorem exists_put_of_saveAll?_cons (hfolder : t.isFolder [l.folder])
    (h : l.saveAll? (e :: es) t = some t') :
    ∃ place, t.locate? (l.pathOf e) = some place ∧ t.isFolder place = false ∧
      (t.put place (fileOf e)).isFolder = t.isFolder ∧
      l.saveAll? es (t.put place (fileOf e)) = some t' := by
  rw [saveAll?_cons, save?_eq, makeFolder_of_isFolder hfolder] at h
  obtain ⟨t₁, hwrite, hrest⟩ := Option.bind_eq_some_iff.1 h
  obtain ⟨place, hplace, hput⟩ := Option.bind_eq_some_iff.1 hwrite
  split at hput
  · cases hput
  · rename_i hfile
    cases hput
    have hfile : t.isFolder place = false := Bool.eq_false_iff.2 hfile
    exact ⟨place, hplace, hfile, isFolder_put_file hfile _, hrest⟩

/-- What lies in the folder after schemas have been saved, by the names of their files. -/
def keep (l : Loader) (t : FileTree) (xs : List (String × Entity)) (es : List Entity) :
    List (String × Entity) :=
  es.foldl (fun xs e => putUnder (l.nameOf? t e) e xs) xs

/-- Saving schemas changes no folder. -/
theorem isFolder_of_saveAll? (hfolder : t.isFolder [l.folder]) (h : l.saveAll? es t = some t') :
    t'.isFolder = t.isFolder := by
  induction es generalizing t with
  | nil =>
    cases h
    rfl
  | cons e es ih =>
    obtain ⟨place, -, -, hsame, hrest⟩ := exists_put_of_saveAll?_cons hfolder h
    rw [← hsame] at hfolder ⊢
    exact ih hfolder hrest

/-- The path of each schema that is saved leads somewhere. -/
theorem exists_locate?_of_saveAll? (hfolder : t.isFolder [l.folder])
    (h : l.saveAll? es t = some t') : ∀ e ∈ es, ∃ place, t.locate? (l.pathOf e) = some place := by
  induction es generalizing t with
  | nil => exact nofun
  | cons e es ih =>
    obtain ⟨place, hplace, -, hsame, hrest⟩ := exists_put_of_saveAll?_cons hfolder h
    rw [← hsame] at hfolder
    refine List.forall_mem_cons.2 ⟨⟨place, hplace⟩, fun d hd => ?_⟩
    rw [← locate?_congr hsame]
    exact ih hfolder hrest d hd

theorem list?_of_saveAll? {xs : List (String × Entity)}
    (hlist : t.list? l.folder = some (xs.map (Prod.map id fileOf)))
    (h : l.saveAll? es t = some t') :
    t'.list? l.folder = some ((l.keep t xs es).map (Prod.map id fileOf)) := by
  induction es generalizing t xs with
  | nil =>
    cases h
    exact hlist
  | cons e es ih =>
    have hfolder := isFolder_of_list? hlist
    obtain ⟨place, hplace, hfile, hsame, hrest⟩ := exists_put_of_saveAll?_cons hfolder h
    have hname : nameIn? l.folder place = l.nameOf? t e := by
      rw [nameOf?, hplace]
      rfl
    have hput := list?_put_file hfile hlist (fileText e).toUTF8
    rw [← fileOf, hname, putUnder_map] at hput
    rw [ih hput hrest, keep, keep, List.foldl_cons, nameOf?_congr hsame]

/-! ### What is kept -/

theorem nodup_keep {xs : List (String × Entity)} (h : (xs.map (·.1)).Nodup) (t : FileTree)
    (es : List Entity) : ((l.keep t xs es).map (·.1)).Nodup := by
  induction es generalizing xs with
  | nil => exact h
  | cons e es ih => exact ih (nodup_putUnder h)

/-- What is kept has been saved under its name. -/
theorem of_mem_keep {x : String × Entity} {xs : List (String × Entity)}
    (h : x ∈ l.keep t xs es) : x ∈ xs ∨ x.2 ∈ es ∧ l.nameOf? t x.2 = some x.1 := by
  induction es generalizing xs with
  | nil => exact .inl h
  | cons e es ih =>
    rcases ih h with hx | ⟨hes, hname⟩
    · rcases of_mem_putUnder hx with hx | ⟨hname, rfl⟩
      · exact .inl hx
      · exact .inr ⟨List.mem_cons_self, hname⟩
    · exact .inr ⟨List.mem_cons_of_mem e hes, hname⟩

/-- Schemas that are saved under different names are all kept. -/
theorem keep_of_nodup {name : Entity → String} {xs : List (String × Entity)}
    (hname : ∀ e ∈ es, l.nameOf? t e = some (name e))
    (hnodup : (xs.map (·.1) ++ es.map name).Nodup) :
    l.keep t xs es = xs ++ es.map fun e => (name e, e) := by
  induction es generalizing xs with
  | nil => simp [keep]
  | cons e es ih =>
    have hnew : name e ∉ xs.map (·.1) := fun hmem =>
      (List.nodup_append.1 hnodup).2.2 _ hmem _ List.mem_cons_self rfl
    have hfirst := hname e List.mem_cons_self
    rw [keep, List.foldl_cons, hfirst, putUnder_of_not_mem hnew]
    have hrest := @ih (xs ++ [(name e, e)]) (fun d hd => hname d (List.mem_cons_of_mem e hd))
      (by simpa using hnodup)
    rw [keep] at hrest
    rw [hrest]
    simp

/-- The definition files in the folder after schemas have been saved, in the order of their
names. -/
def saved (l : Loader) (t : FileTree) (es : List Entity) : List (String × Entity) :=
  Text.sortByKey (·.1) ((l.keep t [] es).filter fun x => isDefinitionFile x.1)

theorem of_mem_saved {x : String × Entity} (h : x ∈ l.saved t es) :
    x.2 ∈ es ∧ l.definitionFile? t x.2 = some x.1 := by
  obtain ⟨hx, hfile⟩ := List.mem_filter.1 ((Text.sortByKey_perm ..).mem_iff.1 h)
  obtain ⟨hes, hname⟩ := (of_mem_keep hx).resolve_left nofun
  exact ⟨hes, by rw [definitionFile?, hname, Option.filter_some, if_pos hfile]⟩

theorem sorted_saved (l : Loader) (t : FileTree) (es : List Entity) :
    ((l.saved t es).map (·.1)).Pairwise (· < ·) := by
  have hkeep : ((l.keep t [] es).map (·.1)).Nodup := nodup_keep (by exact List.nodup_nil) t es
  exact Text.sorted_sortByKey_of_nodup (hkeep.sublist (List.filter_sublist.map _))

/-- No schema is lost exactly if each has a definition file of its own. -/
theorem saved_perm_iff (hes : es.Nodup) :
    ((l.saved t es).map (·.2)).Perm es ↔
      (∀ e ∈ es, (l.definitionFile? t e).isSome) ∧ (es.map (l.definitionFile? t)).Nodup := by
  constructor
  · intro hperm
    have hsaved (e : Entity) (he : e ∈ es) :
        ∃ x ∈ l.saved t es, x.2 = e ∧ l.definitionFile? t e = some x.1 := by
      obtain ⟨x, hx, rfl⟩ := List.mem_map.1 (hperm.mem_iff.2 he)
      exact ⟨x, hx, rfl, (of_mem_saved hx).2⟩
    refine ⟨fun e he => ?_, (List.nodup_map_iff_inj_on hes).2 fun d hd e he heq => ?_⟩
    · obtain ⟨x, -, -, hx⟩ := hsaved e he
      rw [hx]
      rfl
    · -- two schemas with one file would be found under one name
      obtain ⟨x, hx, rfl, hxname⟩ := hsaved d hd
      obtain ⟨y, hy, rfl, hyname⟩ := hsaved e he
      have hname : x.1 = y.1 := Option.some_inj.1 (by rw [← hxname, heq, hyname])
      rw [List.inj_on_of_nodup_map (sorted_saved l t es).nodup hx hy hname]
  · rintro ⟨hall, hnodup⟩
    let name (e : Entity) : String := (l.definitionFile? t e).getD ""
    have hfile (e : Entity) (he : e ∈ es) : l.definitionFile? t e = some (name e) := by
      obtain ⟨file, hfile⟩ := Option.isSome_iff_exists.1 (hall e he)
      simp [name, hfile]
    have hname (e : Entity) (he : e ∈ es) :
        l.nameOf? t e = some (name e) ∧ isDefinitionFile (name e) :=
      Option.filter_eq_some_iff.1 (hfile e he)
    have hnames : (es.map name).Nodup := by
      rw [List.map_congr_left hfile, ← Function.comp_def, ← List.map_map] at hnodup
      exact hnodup.of_map some
    have hkeep : l.keep t [] es = es.map fun e => (name e, e) :=
      keep_of_nodup (fun e he => (hname e he).1) hnames
    have hfilter : (l.keep t [] es).filter (fun x => isDefinitionFile x.1) = l.keep t [] es := by
      rw [hkeep, List.filter_eq_self]
      rintro x hx
      obtain ⟨e, he, rfl⟩ := List.mem_map.1 hx
      exact (hname e he).2
    refine ((Text.sortByKey_perm ..).map _).trans ?_
    rw [hfilter, hkeep, List.map_map]
    exact .of_eq (List.map_id es)

/-! ### Plain names -/

/-- A schema with a name that is not empty and has no slash is saved as a definition file in the
folder. -/
theorem definitionFile?_of_plain (hfolder : isFileName l.folder) (hslash : '/' ∉ l.folder.toList)
    (hsaved : ∃ place, t.locate? (l.pathOf e) = some place) (hne : e.name ≠ "")
    (hname : '/' ∉ e.name.toList) : l.definitionFile? t e = some (e.name ++ ".json") := by
  obtain ⟨place, hplace⟩ := hsaved
  have hfile : '/' ∉ (e.name ++ ".json").toList := by
    rw [String.toList_append, List.mem_append, not_or]
    exact ⟨hname, by decide⟩
  have hpath : l.pathOf e = l.folder ++ "/" ++ (e.name ++ ".json") := by
    have hhead : (e.name ++ ".json").toList.head? ≠ some '/' :=
      fun h => hfile (List.mem_of_mem_head? h)
    rw [pathOf, if_neg hhead, joinPath_of_isFileName hfolder hslash]
  have hdefinition : isDefinitionFile (e.name ++ ".json") := by
    have hlength : 0 < (Text.bytes e.name).length :=
      List.length_pos_of_ne_nil fun h => hne (Text.bytes_injective h)
    have hextension : (Text.bytes ".json").length = 5 := by decide
    rw [isDefinitionFile, isDefinitionName, Text.bytes_append, Bool.and_eq_true]
    refine ⟨List.isSuffixOf_iff_suffix.2 (List.suffix_append _ _), decide_eq_true ?_⟩
    rw [List.length_append, hextension]
    exact Nat.lt_add_of_pos_left hlength
  rw [hpath] at hplace
  have hin : l.nameOf? t e = some (e.name ++ ".json") := by
    rw [nameOf?, hpath, hplace, locate?_in_folder hfolder hslash hfile hplace]
    exact nameIn?_eq_some_iff.2 rfl
  rw [definitionFile?, hin, Option.filter_some, if_pos hdefinition]

/-! ### Loading -/

/-- A new loader reads what was saved into an empty folder, in the order of the files. -/
theorem load_of_saveAll? (hes : ∀ e ∈ es, Entity.ofDefinition e.definition = .ok e)
    (hempty : t.list? l.folder = some []) (h : l.saveAll? es t = some t') :
    let loaded := (start l.folder).load t'
    loaded.result = .ok () ∧ loaded.loader = ⟨l.folder, (l.saved t' es).map (·.2)⟩ := by
  have hkeep : l.keep t' [] es = l.keep t [] es := by
    rw [keep, keep, nameOf?_congr (isFolder_of_saveAll? (isFolder_of_list? hempty) h)]
  have hlist : t'.list? l.folder = some ((l.keep t' [] es).map (Prod.map id fileOf)) := by
    rw [hkeep]
    exact list?_of_saveAll? hempty h
  have hlisting : t'.listing? l.folder =
      some ((l.keep t' [] es).map (Prod.map Text.bytes fileOf)) := by
    rw [listing?, hlist, Option.map_some, List.map_map, Prod.map_comp_map]
    rfl
  have hsaved (x : String × Entity) (hx : x ∈ l.saved t' es) :
      Entity.ofDefinition x.2.definition = .ok x.2 := hes x.2 (of_mem_saved hx).1
  have hread := readAll_fileOf hsaved (start l.folder)
  have hload : (start l.folder).load t' = (start l.folder).loadAll (t'.listing? l.folder) := rfl
  dsimp only
  rw [hload, hlisting, loadAll, definitionFiles_fileOf, ← saved, hread]
  exact ⟨rfl, rfl⟩

/-- A schema whose path leads to no definition file in the folder is saved, and not loaded. -/
theorem load_of_definitionFile?_none
    (hempty : (t.makeFolder l.folder).list? l.folder = some [])
    (he : Entity.ofDefinition e.definition = .ok e)
    (hfile : l.definitionFile? (t.makeFolder l.folder) e = none)
    (h : l.saveAll? [e] t = some t') :
    let loaded := (start l.folder).load t'
    loaded.result = .ok () ∧ loaded.loader.schemas = [] := by
  have hmaking := isFolder_of_list? hempty
  rw [← saveAll?_makeFolder hmaking (.inl (List.cons_ne_nil _ _))] at h
  obtain ⟨hok, hloader⟩ := load_of_saveAll? (List.forall_mem_singleton.2 he) hempty h
  refine ⟨hok, (congrArg schemas hloader).trans (List.map_eq_nil_iff.2 ?_)⟩
  refine List.eq_nil_iff_forall_not_mem.2 fun x hx => ?_
  -- what is loaded has a definition file, wherever files were written meanwhile
  obtain ⟨hxe, hxfile⟩ := of_mem_saved hx
  rw [List.mem_singleton.1 hxe, definitionFile?, nameOf?_congr (isFolder_of_saveAll? hmaking h),
    ← definitionFile?, hfile] at hxfile
  cases hxfile

/-- **Saved schemas load back.** Schemas that are what their definitions stand for, with different
names, are saved into a folder that is empty, or that is made when the first of them is saved. A new
loader then reads its definition files without an error, in the order of their names, and gets
nothing but the schemas that were saved. It gets each of them once exactly if each was saved in a
definition file of its own in the folder, and then it builds the same registry. Names that are not
empty and have no slash are enough for that. -/
theorem load_saved {l : Loader} {es : List Entity} {t t' : FileTree}
    (hfolder : isFileName l.folder) (hslash : '/' ∉ l.folder.toList)
    (hempty : (t.makeFolder l.folder).list? l.folder = some [])
    (hmade : es ≠ [] ∨ t.isFolder [l.folder]) (hnames : (es.map (·.name)).Nodup)
    (hes : ∀ e ∈ es, Entity.ofDefinition e.definition = .ok e)
    (hsaved : l.saveAll? es t = some t') :
    let loaded := (start l.folder).load t'
    let schemas := loaded.loader.schemas
    loaded.result = .ok () ∧ schemas ⊆ es ∧
      (∃ files : List String, files.Pairwise (· < ·) ∧
        schemas.map (l.definitionFile? t') = files.map some) ∧
      (schemas.Perm es ↔
        (∀ e ∈ es, (l.definitionFile? t' e).isSome) ∧ (es.map (l.definitionFile? t')).Nodup) ∧
      (schemas.Perm es → loaded.loader.toRegistry = Registry.ofEntities es) ∧
      ((∀ e ∈ es, e.name ≠ "" ∧ '/' ∉ e.name.toList) →
        schemas.Perm es ∧ ∀ e ∈ es, l.definitionFile? t' e = some (e.name ++ ".json")) := by
  intro loaded schemas
  have hmaking := isFolder_of_list? hempty
  rw [← saveAll?_makeFolder hmaking hmade] at hsaved
  obtain ⟨hok, hloader⟩ := load_of_saveAll? hes hempty hsaved
  have hschemas : schemas = (l.saved t' es).map (·.2) := congrArg Loader.schemas hloader
  have hperm := @saved_perm_iff l t' es (hnames.of_map _)
  rw [← hschemas] at hperm
  refine ⟨hok, fun e he => ?_, ⟨_, sorted_saved l t' es, ?_⟩, hperm, fun h => ?_, fun hplain => ?_⟩
  · rw [hschemas] at he
    obtain ⟨x, hx, rfl⟩ := List.mem_map.1 he
    exact (of_mem_saved hx).1
  · rw [hschemas, List.map_map, List.map_map]
    exact List.map_congr_left fun x hx => (of_mem_saved hx).2
  · rw [toRegistry]
    exact Registry.ofEntities_perm h (((h.map _).nodup_iff).2 hnames)
  · have hfile (e : Entity) (he : e ∈ es) :
        l.definitionFile? t' e = some (e.name ++ ".json") := by
      obtain ⟨hne, hname⟩ := hplain e he
      refine definitionFile?_of_plain hfolder hslash ?_ hne hname
      rw [locate?_congr (isFolder_of_saveAll? hmaking hsaved)]
      exact exists_locate?_of_saveAll? hmaking hsaved e he
    refine ⟨hperm.2 ⟨fun e he => by rw [hfile e he]; rfl, ?_⟩, hfile⟩
    have hinjective : Function.Injective fun name : String => some (name ++ ".json") :=
      fun m n h => (String.append_left_inj ".json").1 (Option.some_inj.1 h)
    have hfiles := hnames.map hinjective
    rw [List.map_map] at hfiles
    rw [List.map_congr_left hfile]
    exact hfiles

/-- Three types that are saved in one order are loaded in another one, and give the registry. -/
theorem load_saved_staff :
    let es : List Entity := [.employee, .department, .address]
    ∃ t', (start "schemas").saveAll? es .empty = some t' ∧
      let loaded := (start "schemas").load t'
      loaded.result = .ok () ∧ loaded.loader.schemas.Perm es ∧
      loaded.loader.toRegistry = .ok Registry.staff := by
  intro es
  obtain ⟨t', hsaved⟩ : ∃ t', (start "schemas").saveAll? es .empty = some t' :=
    Option.isSome_iff_exists.1 (by decide +kernel)
  have hes : ∀ e ∈ es, Entity.ofDefinition e.definition = .ok e := by decide +kernel
  have hnames : (es.map (·.name)).Nodup := by decide +kernel
  have hplain : ∀ e ∈ es, e.name ≠ "" ∧ '/' ∉ e.name.toList := by decide +kernel
  obtain ⟨hok, -, -, -, hregistry, hall⟩ := load_saved (by decide +kernel) (by decide +kernel) rfl
    (.inl (List.cons_ne_nil _ _)) hnames hes hsaved
  have hperm := (hall hplain).1
  refine ⟨t', hsaved, hok, hperm, (hregistry hperm).trans ?_⟩
  decide +kernel

/-- A name that leads out of the folder, and one that leaves nothing before the dot: either type is
saved without an error, and a new loader finds no definition. -/
theorem saved_not_loaded :
    let IsLost (e : Entity) : Prop :=
      Entity.ofDefinition e.definition = .ok e ∧
      ∃ t', (start "schemas").saveAll? [e] .empty = some t' ∧
        let loaded := (start "schemas").load t'
        loaded.result = .ok () ∧ loaded.loader.schemas = []
    IsLost (.entity "../City") ∧ IsLost (.entity "") := by
  intro IsLost
  have hlost (e : Entity) (he : Entity.ofDefinition e.definition = .ok e)
      (hfile : (start "schemas").definitionFile? (FileTree.empty.makeFolder "schemas") e = none)
      (hsaved : ((start "schemas").saveAll? [e] .empty).isSome) : IsLost e := by
    obtain ⟨t', ht'⟩ := Option.isSome_iff_exists.1 hsaved
    exact ⟨he, t', ht', load_of_definitionFile?_none rfl he hfile ht'⟩
  exact ⟨hlost _ (by decide +kernel) (by decide +kernel) (by decide +kernel),
    hlost _ (by decide +kernel) (by decide +kernel) (by decide +kernel)⟩

end QueryFilter.Loader
