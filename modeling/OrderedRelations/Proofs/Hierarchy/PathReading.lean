import OrderedRelations.Proofs.Hierarchy.DepthCap
import OrderedRelations.Proofs.Query.BuiltRelations
import OrderedRelations.Proofs.Text.Numerals

/-!
# Reading paths back

A path lists the keys of a chain from the anchor on, with a slash between keys and a comma between
the fields of a key. Numerals hold neither separator, so where the texts of the keys hold none
either and are not empty, splitting a path gives the chain back: a null is the only empty field. The
ancestors of a listed row are listed themselves, one level up each, so what holds of the keys of the
listed rows holds of every chain, and a path without its last key is the path of a row one level up.
-/

namespace OrderedRelations.Hierarchy

/-- The value that a field of a key spells: nothing spells null, numerals spell whole numbers and
texts stand for themselves. -/
def readField : ColumnType → List Char → Option Value
  | _, [] => some .null
  | .integer, field => (String.ofList field).toInt?.map .int
  | .text, field => some (.text (String.ofList field))
  | _, _ => none

/-- The values that fields spell, one for each type. -/
def readFields : List ColumnType → List (List Char) → Option (List Value)
  | [], [] => some []
  | type :: types, field :: fields => do
    let v ← readField type field
    let rest ← readFields types fields
    pure (v :: rest)
  | _, _ => none

def readKey (types : List ColumnType) (segment : List Char) : Option (List Value) :=
  readFields types (segment.splitOn ',')

/-- The keys that a path spells, from the anchor on. -/
def readPath (types : List ColumnType) (path : String) : Option (List (List Value)) :=
  (path.toList.splitOn '/').mapM (readKey types)

/-- A path without its last segment. -/
def cutPath (path : String) : String :=
  String.ofList (['/'].intercalate (path.toList.splitOn '/').dropLast)

/-- A text that can be told from its surroundings in a path. -/
structure Separable (s : String) : Prop where
  nonempty : s ≠ ""
  comma : ',' ∉ s.toList
  slash : '/' ∉ s.toList

/-- The values of key columns that a path gives back. -/
inductive Readable : ColumnType → Value → Prop
  | null (type : ColumnType) : Readable type .null
  | integer (n : ℤ) : Readable .integer (.int n)
  | text {s : String} (separable : Separable s) : Readable .text (.text s)

theorem readable_of_conforms {type : ColumnType} {v : Value}
    (htype : type = .integer ∨ type = .text) (hv : v.conforms type = true)
    (hclean : ∀ s, v = .text s → Separable s) : Readable type v := by
  rcases htype with rfl | rfl
  · cases Value.holds_of_conforms hv with
    | null => exact .null _
    | integer n => exact .integer n
  · cases Value.holds_of_conforms hv with
    | null => exact .null _
    | text s => exact .text (hclean s rfl)

/-- The text of one field of a key. -/
def fieldText (v : Value) : String := if v.isNull then "" else v.plain

theorem toList_keyText (key : List Value) :
    (keyText key).toList = [','].intercalate (key.map fun v => (fieldText v).toList) := by
  rw [keyText, String.toList_intercalate, List.map_map]
  rfl

theorem toList_pathText (chain : List (List Value)) :
    (pathText chain).toList = ['/'].intercalate (chain.map fun key => (keyText key).toList) := by
  rw [pathText, String.toList_intercalate, List.map_map]
  rfl

section Fields

variable {type : ColumnType} {types : List ColumnType} {v : Value} {key : List Value}

theorem Readable.notMem_fieldText (h : Readable type v) {c : Char} (hc : c = ',' ∨ c = '/') :
    c ∉ (fieldText v).toList := by
  cases h with
  | null => simp [fieldText, Value.isNull]
  | integer n => exact Text.notMem_toString_int (by rcases hc with rfl | rfl <;> rfl) (by grind)
  | text hs =>
    rcases hc with rfl | rfl
    · exact hs.comma
    · exact hs.slash

theorem Readable.readField_fieldText (h : Readable type v) :
    readField type (fieldText v).toList = some v := by
  cases h with
  | null => rfl
  | integer n =>
    have hread : (toString n).toInt? = some n := Int.toInt?_repr n
    have hne : (toString n).toList ≠ [] := by
      rw [Text.toList_toString_int]
      split
      · exact List.cons_ne_nil _ _
      · exact Text.padded_ne_nil 0 _
    obtain ⟨c, cs, hcs⟩ := List.exists_cons_of_ne_nil hne
    have hfield : (fieldText (.int n)).toList = c :: cs := hcs
    rw [hfield, readField, ← hcs, String.ofList_toList, hread]
    · rfl
    · exact List.cons_ne_nil c cs
  | @text s hs =>
    have hne : s.toList ≠ [] := fun h => hs.nonempty (String.toList_eq_nil_iff.mp h)
    obtain ⟨c, cs, hcs⟩ := List.exists_cons_of_ne_nil hne
    have hfield : (fieldText (.text s)).toList = c :: cs := hcs
    rw [hfield, readField, ← hcs, String.ofList_toList]
    exact List.cons_ne_nil c cs

theorem readFields_fieldText (h : List.Forall₂ Readable types key) :
    readFields types (key.map fun v => (fieldText v).toList) = some key := by
  induction h with
  | nil => rfl
  | cons hv _ ih => simp [readFields, hv.readField_fieldText, ih]

theorem notMem_fieldTexts (h : List.Forall₂ Readable types key) {c : Char} (hc : c = ',' ∨ c = '/') :
    ∀ field ∈ key.map fun v => (fieldText v).toList, c ∉ field := by
  induction h with
  | nil => simp
  | cons hv _ ih => exact List.forall_mem_cons.mpr ⟨hv.notMem_fieldText hc, ih⟩

/-- Splitting the text of a key at its commas gives the key back, field by field. -/
theorem readKey_keyText (hkey : key ≠ []) (h : List.Forall₂ Readable types key) :
    readKey types (keyText key).toList = some key := by
  rw [readKey, toList_keyText, List.splitOn_intercalate ',' (notMem_fieldTexts h (.inl rfl))
    (by simpa using hkey), readFields_fieldText h]

theorem mem_of_mem_intercalate {c d : Char} {fields : List (List Char)}
    (h : c ∈ [d].intercalate fields) : c = d ∨ ∃ field ∈ fields, c ∈ field := by
  induction fields with
  | nil => simp at h
  | cons field rest ih =>
    cases rest with
    | nil => exact .inr ⟨field, by simp, by simpa using h⟩
    | cons next rest =>
      rw [List.intercalate_cons_cons, List.append_assoc, List.mem_append, List.mem_append,
        List.mem_singleton] at h
      rcases h with h | h | h
      · exact .inr ⟨field, List.mem_cons_self, h⟩
      · exact .inl h
      · exact (ih h).imp_right fun ⟨field, hfield, hc⟩ => ⟨field, List.mem_cons_of_mem _ hfield, hc⟩

theorem slash_notMem_keyText (h : List.Forall₂ Readable types key) : '/' ∉ (keyText key).toList := by
  rw [toList_keyText]
  intro hslash
  rcases mem_of_mem_intercalate hslash with heq | ⟨field, hfield, hc⟩
  · cases heq
  · exact notMem_fieldTexts h (.inr rfl) field hfield hc

end Fields

section Segments

variable {types : List ColumnType} {chain : List (List Value)}

/-- The segments of a path are the texts of the keys. -/
theorem splitOn_pathText (hchain : chain ≠ []) (h : ∀ key ∈ chain, List.Forall₂ Readable types key) :
    (pathText chain).toList.splitOn '/' = chain.map fun key => (keyText key).toList := by
  rw [toList_pathText, List.splitOn_intercalate '/' _ (by simpa using hchain)]
  exact List.forall_mem_map.mpr fun key hkey => slash_notMem_keyText (h key hkey)

/-- Reading a path gives back the chain that it was written for. -/
theorem readPath_pathText (htypes : types ≠ []) (hchain : chain ≠ [])
    (h : ∀ key ∈ chain, List.Forall₂ Readable types key) :
    readPath types (pathText chain) = some chain := by
  rw [readPath, splitOn_pathText hchain h]
  clear hchain
  induction chain with
  | nil => rfl
  | cons key rest ih =>
    obtain ⟨hkey, hrest⟩ := List.forall_mem_cons.mp h
    have hne : key ≠ [] := by
      rintro rfl
      exact htypes (List.length_eq_zero_iff.mp hkey.length_eq)
    rw [List.map_cons, List.mapM_cons, readKey_keyText hne hkey, ih hrest]
    rfl

/-- A path tells the chain that it was written for. -/
theorem pathText_inj {other : List (List Value)} (htypes : types ≠ []) (hchain : chain ≠ [])
    (hother : other ≠ []) (h : ∀ key ∈ chain, List.Forall₂ Readable types key)
    (h' : ∀ key ∈ other, List.Forall₂ Readable types key) (heq : pathText chain = pathText other) :
    chain = other := by
  have hread := readPath_pathText htypes hchain h
  rw [heq, readPath_pathText htypes hother h'] at hread
  exact (Option.some.inj hread).symm

/-- Cutting a path cuts the last key off the chain. -/
theorem cutPath_pathText (hchain : chain ≠ []) (h : ∀ key ∈ chain, List.Forall₂ Readable types key) :
    cutPath (pathText chain) = pathText chain.dropLast := by
  rw [cutPath, splitOn_pathText hchain h, ← List.map_dropLast, ← toList_pathText,
    String.ofList_toList]

end Segments

/-- A line of rows from a row of the anchor on, each given by the member for the one before; it ends
with a given row. -/
inductive Ancestry (spec : HierarchySpec) (base seed : Relation) :
    List (List Value) → List Value → Prop
  | anchor {row : List Value} (rooted : row ∈ seed.rows) : Ancestry spec base seed [row] row
  | child {line : List (List Value)} {parent row : List Value} {children : List (List Value)}
      (above : Ancestry spec base seed line parent)
      (given : Gives spec base seed.schema parent children) (listed : row ∈ children) :
      Ancestry spec base seed (line ++ [row]) row

section Listing

variable {spec : HierarchySpec} {base seed : Relation} {places : List ℕ}
  {found : List (List Lineage)}

/-- The chain of an entry holds the keys of a line of ancestors. -/
theorem Reached.exists_ancestry {d : ℕ} {frontier : List Lineage}
    (h : Reached (nextLevel spec base seed.schema places) (roots places seed.rows) d frontier) :
    ∀ l ∈ frontier, ∃ line, Ancestry spec base seed line l.row ∧
      l.chain = line.map (keyOf places) := by
  induction h with
  | start =>
    intro l hl
    obtain ⟨row, hrow, rfl⟩ := List.mem_map.mp hl
    exact ⟨[row], .anchor hrow, rfl⟩
  | round _ _ hnext ih =>
    intro l hl
    obtain ⟨parent, hparent, children, hgives, hl⟩ := exists_parent hnext hl
    obtain ⟨hmem, -, hchain⟩ := mem_offspring.mp hl
    obtain ⟨line, hline, hkeys⟩ := ih parent hparent
    exact ⟨line ++ [l.row], hline.child hgives hmem, by rw [hchain, hkeys, List.map_append]; rfl⟩

/-- The rows of the entries, level by level. -/
def listing (schema : Schema) (found : List (List Lineage)) : Relation :=
  ⟨schema, found.flatten.map Lineage.row⟩

theorem valuesAt_listing (schema : Schema) {i : ℕ} {l : Lineage} (h : found.flatten[i]? = some l) :
    (listing schema found).valuesAt i = l.row := by
  rw [listing, Relation.valuesAt, List.getElem?_map, h]
  rfl

theorem size_listing (schema : Schema) : (listing schema found).size = found.flatten.length :=
  List.length_map _

/-- The levels are the frontiers of the loop. -/
def Leveled (spec : HierarchySpec) (base seed : Relation) (places : List ℕ)
    (found : List (List Lineage)) : Prop :=
  ∀ (d : ℕ) level, found[d]? = some level →
    Reached (nextLevel spec base seed.schema places) (roots places seed.rows) d level

theorem Leveled.exists_level (h : Leveled spec base seed places found) {l : Lineage}
    (hl : l ∈ found.flatten) :
    ∃ d level, found[d]? = some level ∧ l ∈ level ∧ l.chain.length = d + 1 := by
  obtain ⟨level, hlevel, hl⟩ := List.mem_flatten.mp hl
  obtain ⟨d, hd⟩ := List.getElem?_of_mem hlevel
  exact ⟨d, level, hd, hl, ((h d level hd).descent l hl).length⟩

theorem Leveled.chain_ne_nil (h : Leveled spec base seed places found) {l : Lineage}
    (hl : l ∈ found.flatten) : l.chain ≠ [] := by
  obtain ⟨d, -, -, -, hlength⟩ := h.exists_level hl
  exact List.ne_nil_of_length_eq_add_one hlength

/-- An entry below the first level has its parent in the level above. -/
theorem Leveled.exists_parent (h : Leveled spec base seed places found) {d : ℕ}
    {level : List Lineage} (hlevel : found[d + 1]? = some level) {l : Lineage} (hl : l ∈ level) :
    ∃ above parent, found[d]? = some above ∧ parent ∈ above ∧
      l.chain = parent.chain ++ [keyOf places l.row] := by
  have hlt : d < found.length := by
    have := (List.getElem?_eq_some_iff.mp hlevel).1
    omega
  have habove := List.getElem?_eq_getElem hlt
  cases h (d + 1) level hlevel with
  | round before _ hnext =>
    obtain ⟨parent, hparent, children, -, hl⟩ := Hierarchy.exists_parent hnext hl
    rw [before.unique (h d _ habove)] at hparent
    exact ⟨_, parent, habove, hparent, (mem_offspring.mp hl).2.2⟩

/-- Every key of a chain is the key of an entry that is listed. -/
theorem Leveled.exists_entry (h : Leveled spec base seed places found) {d : ℕ} :
    ∀ level, found[d]? = some level → ∀ l ∈ level, ∀ key ∈ l.chain,
      ∃ m ∈ found.flatten, keyOf places m.row = key := by
  have hlisted : ∀ {d level}, found[d]? = some level → ∀ l ∈ level, l ∈ found.flatten :=
    fun hlevel l hl => List.mem_flatten_of_mem (List.mem_of_getElem? hlevel) hl
  induction d with
  | zero =>
    intro level hlevel l hl key hkey
    cases h 0 level hlevel
    obtain ⟨row, -, rfl⟩ := List.mem_map.mp hl
    exact ⟨_, hlisted hlevel _ hl, (List.mem_singleton.mp hkey).symm⟩
  | succ d ih =>
    intro level hlevel l hl key hkey
    obtain ⟨above, parent, habove, hparent, hchain⟩ := h.exists_parent hlevel hl
    rw [hchain, List.mem_append, List.mem_singleton] at hkey
    rcases hkey with hkey | rfl
    · exact ih above habove parent hparent key hkey
    · exact ⟨l, hlisted hlevel l hl, rfl⟩

theorem Leveled.depths_eq (h : Leveled spec base seed places found) :
    depths found = found.flatten.map fun l => .int (l.chain.length - 1 : ℕ) := by
  have hfound : found = (List.range found.length).map fun d => found[d]?.getD [] := by
    refine List.ext_getElem (by simp) fun d hd _ => ?_
    simp [hd]
  rw [hfound]
  refine depths_eq_map found.length fun d l hl => ?_
  cases hlevel : found[d]? with
  | none => simp [hlevel] at hl
  | some level =>
    rw [hlevel] at hl
    exact ((h d level hlevel).descent l hl).length

/-- Where both columns are asked for, they stand behind the rows and hold the depths and the
paths. -/
theorem withColumns_eq_ok {depthColumn pathColumn : String}
    (hdepth : spec.depthColumn = some depthColumn) (hpath : spec.pathColumn = some pathColumn)
    (hrows : Relation.WellFormed (listing seed.schema found))
    (hdepths : depths found = found.flatten.map fun l => .int (l.chain.length - 1 : ℕ))
    {res : Resolution} (h : withColumns spec seed.schema found = .ok res) :
    Relation.Widens (listing seed.schema found) res.relation ∧
    ∀ i l, found.flatten[i]? = some l →
      res.relation.cell depthColumn i = .int (l.chain.length - 1 : ℕ) ∧
      res.relation.cell pathColumn i = .text (pathText l.chain) := by
  simp only [withColumns, hdepth, hpath, hdepths, Result.bind_eq_ok] at h
  obtain ⟨deeper, hdeeper, longer, hlonger, h⟩ := h
  cases h
  obtain ⟨hdeeperRows, hwider, hnamed, hnumbers⟩ := hrows.cell_of_withColumn
    (List.forall_mem_map.mpr fun l _ => rfl) hdeeper
  obtain ⟨-, hwider', -, htexts⟩ := hdeeperRows.cell_of_withColumn
    (List.forall_mem_map.mpr fun l _ => rfl) hlonger
  refine ⟨hwider.trans hwider', fun i l hi => ⟨?_, htexts i _ ?_⟩⟩
  · rw [hwider'.cell_eq hdeeperRows hnamed]
    exact hnumbers i _ (by rw [List.getElem?_map, hi]; rfl)
  · rw [List.getElem?_map, hi]
    rfl

/-- The keys of listed rows can be read back if their texts are separable. -/
theorem Leveled.readable {types : List ColumnType} {wide : Relation}
    (hlevels : Leveled spec base seed places found)
    (hrows : (listing seed.schema found).WellFormed)
    (hwider : Relation.Widens (listing seed.schema found) wide)
    (hplaces : spec.cycleKey.mapM seed.schema.indexOf = .ok places)
    (htypes : spec.cycleKey.mapM seed.schema.typeOf = .ok types)
    (hkinds : ∀ type ∈ types, type = .integer ∨ type = .text)
    (hclean : ∀ i < wide.size, ∀ name ∈ spec.cycleKey, ∀ s, wide.cell name i = .text s → Separable s)
    {l : Lineage} (hl : l ∈ found.flatten) :
    ∀ key ∈ l.chain, List.Forall₂ Readable types key := by
  intro key hkey
  obtain ⟨d, level, hd, hl, -⟩ := hlevels.exists_level hl
  obtain ⟨m, hm, rfl⟩ := hlevels.exists_entry level hd l hl key hkey
  obtain ⟨j, hj⟩ := List.getElem?_of_mem hm
  have hlt : j < wide.size := by
    rw [hwider.size_eq, size_listing]
    exact (List.getElem?_eq_some_iff.mp hj).1
  have hnamed := (List.forall₂_and_left _ _).mpr
    ⟨fun name (hname : name ∈ spec.cycleKey) => hname, Result.mapM_eq_ok.mp htypes⟩
  have hcolumns := (List.forall₂_and_left _ _).mpr ⟨hkinds, hnamed.flip⟩
  rw [Schema.keyOf_places hplaces, List.forall₂_map_right_iff]
  refine hcolumns.imp fun type name ⟨hkind, hname, htype⟩ => ?_
  have hcell : (listing seed.schema found).cell name j = seed.schema.cell m.row name := by
    rw [Relation.cell, valuesAt_listing _ hj]
    rfl
  rw [← hcell]
  refine readable_of_conforms hkind (hrows.conforms_cell htype j) fun s hs => ?_
  exact hclean j hlt name hname s ((hwider.cell_eq hrows (Schema.mem_names_of_typeOf htype) j).trans hs)

/-- Paths can be read back. Where the key columns hold whole numbers and texts, and the texts are not
empty and hold no separator, the path of a row at depth `d` has `d + 1` segments, which read field by
field are the keys of a line of ancestors from an anchor row to the row itself, the chain that it has
in the loop. So different chains have different paths, and a path at depth `d + 1` without its last
segment is the path of a row at depth `d`, whose chain is one key shorter. -/
theorem paths_read_back (hkeeps : Keeps spec base)
    (hopening : opening spec base = .ok (seed, places)) (hkeyed : spec.cycleKey ≠ [])
    {types : List ColumnType} (htypes : spec.cycleKey.mapM seed.schema.typeOf = .ok types)
    (hkinds : ∀ type ∈ types, type = .integer ∨ type = .text) {depthColumn pathColumn : String}
    (hdepth : spec.depthColumn = some depthColumn) (hpath : spec.pathColumn = some pathColumn)
    {fuel defaultDepth : ℕ} {res : Resolution}
    (hres : resolve fuel base spec defaultDepth = .ok res)
    (hclean : ∀ i < res.relation.size, ∀ name ∈ spec.cycleKey, ∀ s,
      res.relation.cell name i = .text s → Separable s) :
    ∃ found : List (List Lineage), Leveled spec base seed places found ∧
      res.levelSizes = found.map List.length ∧ res.relation.size = found.flatten.length ∧
      (∀ i l, found.flatten[i]? = some l → ∃ (d : ℕ) (level : List Lineage) (path : String) (line : List (List Value)),
        found[d]? = some level ∧ l ∈ level ∧ l.row <+: res.relation.valuesAt i ∧
        Ancestry spec base seed line l.row ∧ l.chain = line.map (keyOf places) ∧
        res.relation.cell depthColumn i = .int d ∧ res.relation.cell pathColumn i = .text path ∧
        (path.toList.splitOn '/').length = d + 1 ∧ readPath types path = some l.chain) ∧
      (∀ i j l m, found.flatten[i]? = some l → found.flatten[j]? = some m → l.chain ≠ m.chain →
        res.relation.cell pathColumn i ≠ res.relation.cell pathColumn j) ∧
      ∀ i l (d : ℕ) path, found.flatten[i]? = some l →
        res.relation.cell depthColumn i = .int (d + 1 : ℕ) →
        res.relation.cell pathColumn i = .text path →
        ∃ j m, found.flatten[j]? = some m ∧ m.chain = l.chain.dropLast ∧
          res.relation.cell depthColumn j = .int d ∧
          res.relation.cell pathColumn j = .text (cutPath path) := by
  have hplaces := opening_eq_ok hopening
  rw [resolve_eq, hopening, Result.ok_bind, Result.bind_eq_ok] at hres
  obtain ⟨found, hfound, hcolumns⟩ := hres
  have hlevels : Leveled spec base seed places found :=
    fun d level hd => ((reached_of_levels hfound).1 d level hd).2
  have hrows : (listing seed.schema found).WellFormed :=
    wellFormed_of_levels hkeeps hopening hfound
  obtain ⟨hwider, hcells⟩ := withColumns_eq_ok hdepth hpath hrows hlevels.depths_eq hcolumns
  have hsize : res.relation.size = found.flatten.length := by
    rw [hwider.size_eq, size_listing]
  have hreadable : ∀ l ∈ found.flatten, ∀ key ∈ l.chain, List.Forall₂ Readable types key :=
    fun l hl => hlevels.readable hrows hwider hplaces htypes hkinds hclean hl
  have htyped : types ≠ [] := by
    rintro rfl
    exact hkeyed (List.length_eq_zero_iff.mp (Result.mapM_eq_ok.mp htypes).length_eq)
  refine ⟨found, hlevels, (withColumns_extends hcolumns).1, hsize, ?_, ?_, ?_⟩
  · intro i l hi
    have hl := List.mem_of_getElem? hi
    obtain ⟨d, level, hd, hlevel, hlength⟩ := hlevels.exists_level hl
    obtain ⟨line, hline, hkeys⟩ := (hlevels d level hd).exists_ancestry l hlevel
    obtain ⟨hnumber, htext⟩ := hcells i l hi
    have hchain := hlevels.chain_ne_nil hl
    refine ⟨d, level, pathText l.chain, line, hd, hlevel, ?_, hline, hkeys, ?_, htext, ?_, ?_⟩
    · rw [← valuesAt_listing seed.schema hi]
      exact hwider.valuesAt_wider i
    · rw [hnumber, hlength, Nat.add_sub_cancel]
    · rw [splitOn_pathText hchain (hreadable l hl), List.length_map, hlength]
    · exact readPath_pathText htyped hchain (hreadable l hl)
  · intro i j l m hi hj hne heq
    have hl := List.mem_of_getElem? hi
    have hm := List.mem_of_getElem? hj
    rw [(hcells i l hi).2, (hcells j m hj).2, Value.text.injEq] at heq
    exact hne (pathText_inj htyped (hlevels.chain_ne_nil hl) (hlevels.chain_ne_nil hm)
      (hreadable l hl) (hreadable m hm) heq)
  · intro i l d path hi hnumber htext
    have hl := List.mem_of_getElem? hi
    obtain ⟨e, level, he, hlevel, hlength⟩ := hlevels.exists_level hl
    rw [(hcells i l hi).1, hlength, Value.int.injEq] at hnumber
    obtain rfl : e = d + 1 := by omega
    rw [(hcells i l hi).2, Value.text.injEq] at htext
    -- the row whose path is the shorter one is the one that the member was called on
    obtain ⟨above, parent, habove, hparent, hchain⟩ := hlevels.exists_parent he hlevel
    obtain ⟨j, hj⟩ := List.getElem?_of_mem
      (List.mem_flatten_of_mem (List.mem_of_getElem? habove) hparent)
    have hlengths := congrArg List.length hchain
    rw [hlength, List.length_append, List.length_singleton] at hlengths
    have hcut : parent.chain = l.chain.dropLast := by rw [hchain, List.dropLast_concat]
    refine ⟨j, parent, hj, hcut, ?_, ?_⟩
    · rw [(hcells j parent hj).1, ← Nat.add_right_cancel hlengths, Nat.add_sub_cancel]
    · rw [(hcells j parent hj).2, ← htext,
        cutPath_pathText (hlevels.chain_ne_nil hl) (hreadable l hl), hcut]

end Listing

/-- Offices with the city of the office above them. -/
def offices : Relation :=
  ⟨⟨[⟨"city", .text, by decide⟩, ⟨"floor", .integer, by decide⟩, ⟨"above", .text, by decide⟩],
      by decide⟩,
    [[.text "Oslo", .null, .null], [.text "Bergen", .int 2, .text "Oslo"]]⟩

/-- The offices below those with none above them, by their cities and floors. -/
def officeTree : HierarchySpec :=
  ⟨anchorWhere fun row => (row.get "above").map Value.isNull, joinedMember ["city"] ["above"],
    ["city", "floor"], 0, some "depth", some "path"⟩

def listedOffices : Relation :=
  ⟨⟨[⟨"city", .text, by decide⟩, ⟨"floor", .integer, by decide⟩, ⟨"above", .text, by decide⟩,
      ⟨"depth", .integer, by decide⟩, ⟨"path", .text, by decide⟩], by decide⟩,
    [[.text "Oslo", .null, .null, .int 0, .text "Oslo,"],
      [.text "Bergen", .int 2, .text "Oslo", .int 1, .text "Oslo,/Bergen,2"]]⟩

theorem keeps_officeTree : Keeps officeTree offices := by
  have hoffices : offices.WellFormed := by decide
  have hjoins : joined ["city"] ["above"] = .ok officeTree.member := if_neg (by decide)
  refine ⟨fun out hout => ?_, fun frontier out _ hout => wellFormed_of_joined hoffices hjoins hout⟩
  have hanchor : (offices.filter fun row => (row.get "above").map Value.isNull).map
      Produced.relation = .ok (.relation out) := hout
  obtain ⟨kept, hkept, heq⟩ := Result.map_eq_ok.mp hanchor
  cases heq
  exact hoffices.filter hkept

/-- The path of the second office is read as the keys of the first one and its own. -/
theorem paths_read_back_offices : ∃ seed, Keeps officeTree offices ∧
    opening officeTree offices = .ok (seed, [0, 1]) ∧ officeTree.cycleKey ≠ [] ∧
    officeTree.cycleKey.mapM seed.schema.typeOf = .ok [.text, .integer] ∧
    resolve 4 offices officeTree 0 = .ok ⟨listedOffices, [1, 1]⟩ ∧
    ∃ line row, Ancestry officeTree offices seed line row ∧ row <+: listedOffices.valuesAt 1 ∧
      readPath [.text, .integer] "Oslo,/Bergen,2" = some (line.map (keyOf [0, 1])) := by
  have hopening : opening officeTree offices =
      .ok (⟨offices.schema, [[.text "Oslo", .null, .null]]⟩, [0, 1]) := rfl
  have hkeyed : officeTree.cycleKey ≠ [] := List.cons_ne_nil _ _
  have htypes : officeTree.cycleKey.mapM offices.schema.typeOf = .ok [.text, .integer] := rfl
  have hres : resolve 4 offices officeTree 0 = .ok ⟨listedOffices, [1, 1]⟩ := by cbv
  have hclean : ∀ i < listedOffices.size, ∀ name ∈ officeTree.cycleKey, ∀ s,
      listedOffices.cell name i = .text s → Separable s := by
    intro i hi name hname s hs
    have hrow : i = 0 ∨ i = 1 := Nat.le_one_iff_eq_zero_or_eq_one.mp (Nat.lt_succ_iff.mp hi)
    have hcolumn : name = "city" ∨ name = "floor" := by simpa [officeTree] using hname
    rcases hrow with rfl | rfl <;> rcases hcolumn with rfl | rfl <;> cases hs <;>
      exact ⟨by decide, by decide, by decide⟩
  obtain ⟨found, hlevels, hsizes, hsize, hread, -⟩ := paths_read_back keeps_officeTree hopening
    hkeyed htypes (by decide) rfl rfl hres hclean
  have hi : 1 < found.flatten.length := hsize ▸ Nat.one_lt_two
  obtain ⟨d, level, path, line, -, -, hprefix, hline, hkeys, -, hpath, -, hread⟩ :=
    hread 1 _ (List.getElem?_eq_getElem hi)
  obtain rfl : "Oslo,/Bergen,2" = path := Value.text.inj hpath
  exact ⟨_, keeps_officeTree, hopening, hkeyed, htypes, hres, line, _, hline, hprefix, hkeys ▸ hread⟩

end OrderedRelations.Hierarchy
