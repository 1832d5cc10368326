import FileDigest.Proofs.Settings.Layers

/-!
# Trees with other values in them

Sources are put together without a look at the values that they set. So when
each value is exchanged for another one by one rule (`Setting.relabel`), the
same is exchanged in the tree that comes of them (`addLayers_relabel`,
`settle_relabel`), and in a tree that is arranged (`arrange_relabel`). Only what
fills an array up to an item has to stay nothing.
-/

namespace FileDigest

namespace Setting

mutual

/-- The tree with all values without parts exchanged. -/
def relabel (f : Scalar → Scalar) : Setting → Setting
  | scalar origin s => scalar origin (f s)
  | table origin entries => table origin (relabelEntries f entries)
  | array origin items => array origin (relabelItems f items)

def relabelEntries (f : Scalar → Scalar) : List (String × Setting) →
    List (String × Setting)
  | [] => []
  | (name, v) :: rest => (name, relabel f v) :: relabelEntries f rest

def relabelItems (f : Scalar → Scalar) : List Setting → List Setting
  | [] => []
  | v :: rest => relabel f v :: relabelItems f rest

end

variable (f : Scalar → Scalar)

theorem relabelEntries_eq_map (entries : List (String × Setting)) :
    relabelEntries f entries = entries.map fun e => (e.1, e.2.relabel f) := by
  induction entries with
  | nil => rfl
  | cons e rest ih => rw [relabelEntries, ih, List.map_cons]

theorem relabelItems_eq_map (items : List Setting) :
    relabelItems f items = items.map (relabel f) := by
  induction items with
  | nil => rfl
  | cons v rest ih => rw [relabelItems, ih, List.map_cons]

theorem lookup_relabelEntries (key : String)
    (entries : List (String × Setting)) :
    (relabelEntries f entries).lookup key = (entries.lookup key).map
      (relabel f) := by
  induction entries with
  | nil => rfl
  | cons e rest ih =>
      obtain ⟨name, v⟩ := e
      rw [relabelEntries, lookup_cons, lookup_cons, ih]
      split <;> rfl

theorem putEntry_relabel (key : String) (v : Setting)
    (entries : List (String × Setting)) :
    putEntry key (v.relabel f) (relabelEntries f entries) =
      relabelEntries f (putEntry key v entries) := by
  induction entries with
  | nil => rfl
  | cons e rest ih =>
      obtain ⟨name, w⟩ := e
      rw [relabelEntries, putEntry, putEntry]
      split
      · rfl
      · rw [ih, relabelEntries]

theorem under?_relabel (v : Setting) (key : String) :
    (v.relabel f).under? key = (v.under? key).map (relabel f) := by
  cases v with
  | table origin entries => exact lookup_relabelEntries f key entries
  | _ => rfl

theorem put_relabel (v : Setting) (key : String) (w : Setting) :
    (v.relabel f).put key (w.relabel f) = (v.put key w).relabel f := by
  cases v with
  | table origin entries =>
      exact congrArg (table origin) (putEntry_relabel f key w entries)
  | _ => rfl

theorem getD_under?_relabel (v : Setting) (key : String) {default : Setting}
    (hdefault : default.relabel f = default) :
    ((v.relabel f).under? key).getD default =
      ((v.under? key).getD default).relabel f := by
  rw [under?_relabel]
  cases v.under? key with
  | none => exact hdefault.symm
  | some w => rfl

mutual

theorem merge_relabel (target : Setting) (key : String) (v : Setting) :
    (target.relabel f).merge key (v.relabel f) =
      (target.merge key v).relabel f := by
  match v with
  | scalar origin s =>
      exact put_relabel f target (Text.lower key) (scalar origin s)
  | array origin items =>
      exact put_relabel f target (Text.lower key) (array origin items)
  | table origin entries =>
      rw [relabel, merge, merge, getD_under?_relabel f target _ rfl,
        mergeAll_relabel _ entries, put_relabel]

theorem mergeAll_relabel (target : Setting)
    (entries : List (String × Setting)) :
    (target.relabel f).mergeAll (relabelEntries f entries) =
      (target.mergeAll entries).relabel f := by
  match entries with
  | [] => rfl
  | (key, v) :: rest =>
      rw [relabelEntries, mergeAll, mergeAll, merge_relabel target key v,
        mergeAll_relabel _ rest]

end

theorem items_relabel (v : Setting) :
    (v.relabel f).items = relabelItems f v.items := by
  cases v <;> rfl

theorem length_items_relabel (v : Setting) : (v.relabel f).items.length =
    v.items.length := by
  rw [items_relabel, relabelItems_eq_map, List.length_map]

theorem leaf?_relabel (v : Setting) (path : List String) :
    (v.relabel f).leaf? path = (v.leaf? path).map f := by
  induction path generalizing v with
  | nil => cases v <;> rfl
  | cons name rest ih =>
      cases v with
      | table origin entries =>
          rw [relabel, leaf?_table_cons, leaf?_table_cons,
            lookup_relabelEntries]
          cases entries.lookup name with
          | none => rfl
          | some w => exact ih w
      | _ => rfl

theorem entries_relabel (v : Setting) :
    (v.relabel f).entries = relabelEntries f v.entries := by
  cases v <;> rfl

mutual

theorem arrange_relabel (order : TableOrder) (place : List PathStep)
    (v : Setting) :
    (v.relabel f).arrange order place = (v.arrange order place).relabel f := by
  match v with
  | scalar origin s => rfl
  | table origin entries =>
      rw [relabel, arrange, arrange, relabel,
        arrangeEach_relabel order place entries, relabelEntries_eq_map,
        relabelEntries_eq_map, sortByRank_map]
  | array origin items =>
      rw [relabel, arrange, arrange, relabel,
        arrangeItems_relabel order place 0 items]

theorem arrangeEach_relabel (order : TableOrder) (place : List PathStep)
    (entries : List (String × Setting)) :
    arrangeEach order place (relabelEntries f entries) =
      relabelEntries f (arrangeEach order place entries) := by
  match entries with
  | [] => rfl
  | (name, v) :: rest =>
      rw [relabelEntries, arrangeEach, arrangeEach, relabelEntries,
        arrange_relabel order _ v, arrangeEach_relabel order place rest]

theorem arrangeItems_relabel (order : TableOrder)
    (place : List PathStep) (i : Nat) (items : List Setting) :
    arrangeItems order place i (relabelItems f items) =
      relabelItems f (arrangeItems order place i items) := by
  match items with
  | [] => rfl
  | v :: rest =>
      rw [relabelItems, arrangeItems, arrangeItems, relabelItems,
        arrange_relabel order _ v,
        arrangeItems_relabel order place (i + 1) rest]

end

theorem arrangeEntries_relabel (order : TableOrder)
    (entries : List (String × Setting)) :
    arrangeEntries order (relabelEntries f entries) =
      relabelEntries f (arrangeEntries order entries) := by
  rw [arrangeEntries, arrangeEntries, arrangeEach_relabel,
    relabelEntries_eq_map, relabelEntries_eq_map, sortByRank_map]

variable {f} (hnil : f .nil = .nil)
include hnil

theorem setItem_relabel (v : Setting) (position : Nat) (w : Setting) :
    (v.relabel f).setItem position (w.relabel f) =
      (v.setItem position w).relabel f := by
  have hnothing : nothing.relabel f = nothing := congrArg (scalar none) hnil
  have hitems : relabelItems f v.items ++
      List.replicate (position + 1 - v.items.length) nothing =
        relabelItems f (v.items ++ List.replicate
          (position + 1 - v.items.length) nothing) := by
    rw [relabelItems_eq_map, relabelItems_eq_map, List.map_append,
      List.map_replicate, hnothing]
  unfold setItem
  rw [length_items_relabel, items_relabel]
  dsimp only
  rw [hitems, relabel, relabelItems_eq_map, relabelItems_eq_map, List.map_set]
  cases v <;> rfl

/-- Steps that exchange alike are taken alike. -/
theorem alterStep_relabel {g h : Setting → Option Setting}
    (hgh : ∀ v, g (v.relabel f) = (h v).map (relabel f)) (step : PathStep)
    (v : Setting) :
    alterStep g step (v.relabel f) = (alterStep h step v).map (relabel f) := by
  have hnothing : nothing.relabel f = nothing := congrArg (scalar none) hnil
  cases step with
  | child name =>
      rw [alterStep, alterStep]
      rw [getD_under?_relabel f v _ hnothing, hgh]
      cases h ((v.under? (Text.lower name)).getD nothing) with
      | none => rfl
      | some w => exact congrArg some (put_relabel f v _ w)
  | item index =>
      rw [alterStep, alterStep, length_items_relabel]
      cases position? index v.items.length with
      | none => rfl
      | some position =>
          have hitem : (((v.relabel f).items[position]?).getD nothing) =
              ((v.items[position]?).getD nothing).relabel f := by
            rw [items_relabel, relabelItems_eq_map, List.getElem?_map]
            cases v.items[position]? with
            | none => exact hnothing.symm
            | some w => rfl
          dsimp only
          rw [hitem, hgh]
          cases h ((v.items[position]?).getD nothing) with
          | none => rfl
          | some w => exact congrArg some (setItem_relabel hnil v position w)

theorem assign_relabel (root : Setting) (path : SettingPath) (w : Setting) :
    (root.relabel f).assign path (w.relabel f) = (root.assign path w).map
      (relabel f) := by
  obtain ⟨way, last⟩ := path
  rw [assign, assign]
  dsimp only
  induction way generalizing root with
  | nil =>
      rw [alterAt, alterAt]
      cases last with
      | child name => exact congrArg some (merge_relabel f root name w)
      | item index =>
          rw [assignStep, assignStep, length_items_relabel]
          cases position? index root.items.length with
          | none => rfl
          | some position =>
              exact congrArg some (setItem_relabel hnil root position w)
  | cons step way ih =>
      rw [alterAt, alterAt]
      exact alterStep_relabel hnil ih step root

theorem assignAll_relabel (root : Setting) (entries : List (String × Setting)) :
    (root.relabel f).assignAll (relabelEntries f entries) =
      (root.assignAll entries).map (relabel f) := by
  induction entries generalizing root with
  | nil => rfl
  | cons e rest ih =>
      obtain ⟨name, w⟩ := e
      rw [relabelEntries, assignAll, assignAll, assign_relabel hnil]
      cases root.assign (SettingPath.parse name) w with
      | none => rfl
      | some mid => exact ih mid

theorem settle_relabel (root : Setting) :
    (root.relabel f).settle = (root.settle).map (relabel f) := by
  rw [settle, settle, entries_relabel]
  exact assignAll_relabel hnil emptyTable root.entries

end Setting

open Setting

variable {f : Scalar → Scalar} (hnil : f .nil = .nil)
include hnil

theorem addLayer_relabel (tree : Setting)
    (layer : Except LoadFailure (List (String × Setting))) :
    addLayer (tree.relabel f) (layer.map (relabelEntries f)) =
      (addLayer tree layer).map (relabel f) := by
  cases layer with
  | error failure => rfl
  | ok entries =>
      rw [Except.map, addLayer, addLayer]
      rw [assignAll_relabel hnil]
      cases tree.assignAll entries <;> rfl

theorem addLayers_relabel (tree : Setting)
    (layers : List (Except LoadFailure (List (String × Setting)))) :
    addLayers (tree.relabel f) (layers.map fun layer =>
      layer.map (relabelEntries f)) =
      (addLayers tree layers).map (relabel f) := by
  induction layers generalizing tree with
  | nil => rfl
  | cons layer layers ih =>
      rw [List.map_cons, addLayers, addLayers, addLayer_relabel hnil]
      cases addLayer tree layer with
      | error failure => rfl
      | ok mid => exact ih mid

end FileDigest
