import Mathlib.Data.List.Nodup
import QueryFilter.FileTree

/-!
# Writing files

A file that is written changes no folder, so every path leads where it led before, and in a listing
it takes the place of the file of its name.

* `locate?_put_file`: where paths lead does not depend on the files.
* `list?_put_file`: what a folder holds after a file was written.
* `locate?_in_folder`: a name without slashes lies in the folder that stands before it.
-/

namespace QueryFilter.FileTree

variable {t : FileTree} {place : List String} {n : Node} {c : ByteArray} {folder : String}

/-! ### Writing -/

/-- What is found among those whose keys are kept. -/
theorem lookup_filter_key {α β : Type} [BEq α] [LawfulBEq α] (f : α → Bool) (q : α)
    (l : List (α × β)) : (l.filter fun p => f p.1).lookup q = if f q then l.lookup q else none := by
  induction l with
  | nil => simp
  | cons p l ih =>
    obtain ⟨k, v⟩ := p
    rw [List.filter_cons]
    by_cases hq : q = k
    · subst hq
      cases hf : f q <;> simp [ih, hf]
    · have hqk : (q == k) = false := beq_false_of_ne hq
      cases hf : f k <;> simp [ih, List.lookup_cons, hqk]

theorem node?_put (t : FileTree) (place q : List String) (n : Node) :
    (t.put place n).node? q = if q = place then some n else t.node? q := by
  unfold node? put
  rw [List.lookup_append, lookup_filter_key (· != place)]
  by_cases hq : q = place
  · simp [hq]
  · have hqp : (q == place) = false := beq_false_of_ne hq
    simp [hq, List.lookup_cons, hqp]

/-- A file makes no folder and takes none away. -/
theorem isFolder_put_file (h : t.isFolder place = false) (c : ByteArray) :
    (t.put place (.file c)).isFolder = t.isFolder := by
  funext q
  unfold isFolder
  rw [node?_put]
  split
  · subst q
    rw [isFolder, Bool.or_eq_false_iff] at h
    rw [h.2]
    rfl
  · rfl

theorem locate?_congr {t t' : FileTree} (h : t.isFolder = t'.isFolder) (path : String) :
    t.locate? path = t'.locate? path := by
  have henter : t.enter? = t'.enter? := by
    funext place part
    unfold enter?
    rw [h]
  unfold locate?
  rw [henter]

theorem makeFolder_of_isFolder (h : t.isFolder [folder]) : t.makeFolder folder = t := by
  simp [makeFolder, h]

/-! ### Listing -/

/-- The name that a place has in a folder, if it lies there. -/
def nameIn? (folder : String) (place : List String) : Option String :=
  match place with
  | [parent, name] => if parent = folder then some name else none
  | _ => none

theorem nameIn?_eq_some_iff {name : String} :
    nameIn? folder place = some name ↔ place = [folder, name] := by
  unfold nameIn?
  split
  · rename_i parent name'
    by_cases h : parent = folder <;> simp [h]
  · rename_i h
    simp only [reduceCtorEq, false_iff]
    rintro rfl
    exact h _ _ rfl

theorem list?_eq (t : FileTree) (folder : String) :
    t.list? folder =
      if t.isFolder [folder] then
        some (t.nodes.filterMap fun p => (nameIn? folder p.1).map fun name => (name, p.2))
      else none := by
  unfold list?
  congr
  funext ⟨place, n⟩
  unfold nameIn?
  rcases place with _ | ⟨parent, _ | ⟨name, _ | _⟩⟩
  case cons.cons.nil => by_cases h : parent = folder <;> simp [h]
  all_goals rfl

theorem isFolder_of_list? {entries : List (String × Node)} (h : t.list? folder = some entries) :
    t.isFolder [folder] := by
  rw [list?_eq] at h
  split at h
  · assumption
  · cases h

/-- Put an item under a name, in the place of the one that has the name. Without a name, nothing is
put. -/
def putUnder {α : Type} (name : Option String) (a : α) (xs : List (String × α)) :
    List (String × α) :=
  match name with
  | some name => xs.filter (·.1 != name) ++ [(name, a)]
  | none => xs

section putUnder

variable {α β : Type} {name : Option String} {a : α} {xs : List (String × α)}

theorem nodup_putUnder (h : (xs.map (·.1)).Nodup) : ((putUnder name a xs).map (·.1)).Nodup := by
  cases name with
  | none => exact h
  | some name =>
    rw [putUnder, List.map_append, List.nodup_append]
    refine ⟨h.sublist (List.filter_sublist.map _), List.nodup_singleton _, ?_⟩
    rintro x hx y hy rfl
    obtain ⟨p, hp, rfl⟩ := List.mem_map.1 hx
    exact bne_iff_ne.1 (List.mem_filter.1 hp).2 (List.mem_singleton.1 hy)

theorem of_mem_putUnder {x : String × α} (h : x ∈ putUnder name a xs) :
    x ∈ xs ∨ name = some x.1 ∧ x.2 = a := by
  cases name with
  | none => exact .inl h
  | some name =>
    rcases List.mem_append.1 h with hx | hx
    · exact .inl (List.mem_filter.1 hx).1
    · obtain rfl := List.mem_singleton.1 hx
      exact .inr ⟨rfl, rfl⟩

/-- A new name comes last. -/
theorem putUnder_of_not_mem {name : String} (h : name ∉ xs.map (·.1)) :
    putUnder (some name) a xs = xs ++ [(name, a)] := by
  rw [putUnder, List.filter_eq_self.2]
  intro x hx
  refine bne_iff_ne.2 ?_
  rintro rfl
  exact h (List.mem_map_of_mem hx)

theorem putUnder_map (f : α → β) :
    putUnder name (f a) (xs.map (Prod.map id f)) = (putUnder name a xs).map (Prod.map id f) := by
  cases name with
  | none => rfl
  | some name =>
    rw [putUnder, putUnder, List.map_append, List.filter_map]
    rfl

end putUnder

/-- A file that is written outside of a folder leaves the folder as it was; in it, the file takes
the place of what had its name. -/
theorem list?_put_file (h : t.isFolder place = false) {entries : List (String × Node)}
    (hlist : t.list? folder = some entries) (c : ByteArray) :
    (t.put place (.file c)).list? folder =
      some (putUnder (nameIn? folder place) (.file c) entries) := by
  have hfolder := isFolder_of_list? hlist
  rw [list?_eq, if_pos hfolder, Option.some_inj] at hlist
  rw [list?_eq, isFolder_put_file h, if_pos hfolder, put, List.filterMap_append, ← hlist,
    List.filterMap_filter, Option.some_inj]
  cases hname : nameIn? folder place with
  | none =>
    rw [List.filterMap_cons_none (by rw [hname]; rfl), List.filterMap_nil, List.append_nil]
    refine List.filterMap_congr fun p _ => ?_
    by_cases hp : p.1 = place
    · simp [hp, hname]
    · simp [hp]
  | some name =>
    rw [List.filterMap_cons_some (by rw [hname]; rfl), List.filterMap_nil, putUnder,
      List.filter_filterMap]
    congr 1
    refine List.filterMap_congr fun p _ => ?_
    rw [nameIn?_eq_some_iff.1 hname]
    cases hp : nameIn? folder p.1 with
    | none => exact ite_self none
    | some other =>
      rw [nameIn?_eq_some_iff.1 hp]
      simp [Option.filter]

/-! ### Paths -/

theorem parts_of_not_mem {cs : List Char} (h : '/' ∉ cs) : parts cs = [String.ofList cs] := by
  induction cs with
  | nil => rfl
  | cons c cs ih =>
    obtain ⟨hc, hcs⟩ := not_or.1 (mt List.mem_cons.2 h)
    rw [parts, if_neg (Ne.symm hc), ih hcs]
    simp

theorem parts_append_slash {cs : List Char} (h : '/' ∉ cs) (ds : List Char) :
    parts (cs ++ '/' :: ds) = String.ofList cs :: parts ds := by
  induction cs with
  | nil => rw [List.nil_append, parts, if_pos rfl]
  | cons c cs ih =>
    obtain ⟨hc, hcs⟩ := not_or.1 (mt List.mem_cons.2 h)
    rw [List.cons_append, parts, if_neg (Ne.symm hc), ih hcs]
    simp

theorem ne_of_isFileName {name : String} (h : isFileName name) :
    name ≠ "" ∧ name ≠ "." ∧ name ≠ ".." := by
  simp only [isFileName, Bool.and_eq_true, bne_iff_ne] at h
  exact ⟨h.1.1.1.1, h.1.1.1.2, h.1.1.2⟩

/-- A slash is put behind a folder that does not end in one. -/
theorem joinPath_of_isFileName (hfolder : isFileName folder) (hslash : '/' ∉ folder.toList)
    (name : String) : joinPath folder name = folder ++ "/" ++ name := by
  have hlast : folder.toList.getLast? ≠ some '/' := fun h => hslash (List.mem_of_getLast? h)
  rw [joinPath, if_neg (not_or.2 ⟨(ne_of_isFileName hfolder).1, hlast⟩)]

/-- A name without slashes lies in the folder that stands before it. -/
theorem locate?_in_folder {name : String} (hfolder : isFileName folder)
    (hslash : '/' ∉ folder.toList) (hname : '/' ∉ name.toList)
    (h : t.locate? (folder ++ "/" ++ name) = some place) : place = [folder, name] := by
  have hparts : parts (folder ++ "/" ++ name).toList = [folder, name] := by
    rw [String.toList_append, String.toList_append, List.append_assoc]
    change parts (folder.toList ++ '/' :: name.toList) = _
    rw [parts_append_slash hslash, parts_of_not_mem hname, String.ofList_toList,
      String.ofList_toList]
  have hplain := ne_of_isFileName hfolder
  have henter (p : List String) (hp : t.enter? [] folder = some p) : p = [folder] := by
    rw [enter?, if_neg (by simp [hplain]), if_neg hplain.2.2] at hp
    split at hp <;> cases hp
    rfl
  unfold locate? at h
  rw [hparts] at h
  obtain ⟨_, -, h⟩ := Option.bind_eq_some_iff.1 h
  obtain ⟨p, hp, h⟩ := Option.bind_eq_some_iff.1 h
  obtain ⟨n, hn, h⟩ := Option.bind_eq_some_iff.1 h
  have hstart : ¬[folder, name].head? = some "" := by simp [hplain]
  rw [if_neg hstart] at hp
  change [folder].foldlM t.enter? [] = some p at hp
  rw [List.foldlM_cons] at hp
  obtain ⟨q, hq, hp⟩ := Option.bind_eq_some_iff.1 hp
  cases hp
  cases hn
  rw [henter p hq] at h
  split at h <;> cases h
  rfl

end QueryFilter.FileTree
