/-
Tables of ids in which each id has a row of ids.

The ids of a table and the ids of a row stand in the order in which they were
first mentioned, each once.
-/

namespace EffectGraph

/-- A list of ids after one is mentioned. -/
def mention (ids : List String) (id : String) : List String :=
  if id ∈ ids then ids else ids ++ [id]

theorem mention_of_mem {ids : List String} {id : String} (h : id ∈ ids) : mention ids id = ids :=
  if_pos h

theorem mention_of_notMem {ids : List String} {id : String} (h : id ∉ ids) :
    mention ids id = ids ++ [id] :=
  if_neg h

theorem nodup_mention {ids : List String} (h : ids.Nodup) (id : String) :
    (mention ids id).Nodup := by
  unfold mention
  split
  · exact h
  · next hn =>
    exact List.nodup_append.2 ⟨h, by simp, by simp; exact fun b hb hab => hn (hab ▸ hb)⟩

theorem mem_mention {ids : List String} {a b : String} : b ∈ mention ids a ↔ b ∈ ids ∨ b = a := by
  unfold mention
  split
  · next h => exact ⟨.inl, fun hb => hb.elim (fun hb => hb) fun hb => hb ▸ h⟩
  · simp

/-- Ids with their rows. -/
@[ext] structure Adjacency where
  rows : List (String × List String)
  nodup_keys : (rows.map (·.1)).Nodup
  nodup_rows : ∀ row ∈ rows, row.2.Nodup

namespace Adjacency

def empty : Adjacency := ⟨[], by simp, by simp⟩

def keys (t : Adjacency) : List String := t.rows.map (·.1)

/-- The row of an id, which is empty for an id that the table does not have. -/
def row (t : Adjacency) (id : String) : List String := (t.rows.lookup id).getD []

/-- All ids with the ids of their rows, row by row. -/
def pairs (t : Adjacency) : List (String × String) :=
  t.rows.flatMap fun row => row.2.map (row.1, ·)

/-- The table with an id. A new id has an empty row. -/
def withKey (t : Adjacency) (id : String) : Adjacency :=
  if h : id ∈ t.keys then t
  else
    { rows := t.rows ++ [(id, [])]
      nodup_keys := by
        rw [List.map_append]
        exact mention_of_notMem h ▸ nodup_mention t.nodup_keys id
      nodup_rows := by
        intro row hrow
        rcases List.mem_append.1 hrow with hrow | hrow
        · exact t.nodup_rows row hrow
        · rw [List.mem_singleton.1 hrow]
          exact List.nodup_nil }

/-- A row after an id is put in the row of a key. -/
def extended (key id : String) (row : String × List String) : String × List String :=
  if row.1 = key then (row.1, mention row.2 id) else row

theorem fst_extended (key id : String) (row : String × List String) :
    (extended key id row).1 = row.1 := by
  unfold extended
  split <;> rfl

/-- Puts an id in the row of a key that the table has. -/
def insert (t : Adjacency) (key id : String) : Adjacency where
  rows := t.rows.map (extended key id)
  nodup_keys := by
    rw [List.map_map, show ((·.1) ∘ extended key id) = Prod.fst from funext (fst_extended key id)]
    exact t.nodup_keys
  nodup_rows := by
    intro row hrow
    obtain ⟨old, hold, rfl⟩ := List.mem_map.1 hrow
    unfold extended
    split
    · exact nodup_mention (t.nodup_rows old hold) id
    · exact t.nodup_rows old hold

/-! ## Rows -/

variable {t : Adjacency} {id : String}

theorem lookup_eq_some_of_mem {rows : List (String × List String)} (h : (rows.map (·.1)).Nodup)
    {ids : List String} (hmem : (id, ids) ∈ rows) : rows.lookup id = some ids := by
  induction rows with
  | nil => cases hmem
  | cons r rows ih =>
    obtain ⟨k, xs⟩ := r
    rw [List.map_cons, List.nodup_cons] at h
    rcases List.mem_cons.1 hmem with he | hmem
    · cases he
      simp
    · have hne : id ≠ k := fun he => h.1 (he ▸ List.mem_map.2 ⟨_, hmem, rfl⟩)
      rw [List.lookup_cons, beq_false_of_ne hne]
      exact ih h.2 hmem

theorem row_of_mem {ids : List String} (h : (id, ids) ∈ t.rows) : t.row id = ids := by
  rw [row, lookup_eq_some_of_mem t.nodup_keys h]
  rfl

theorem row_mem_rows (h : id ∈ t.keys) : (id, t.row id) ∈ t.rows := by
  obtain ⟨⟨k, ids⟩, hmem, rfl⟩ := List.mem_map.1 h
  rw [row_of_mem hmem]
  exact hmem

theorem row_of_notMem_keys (h : id ∉ t.keys) : t.row id = [] := by
  have hnone : t.rows.lookup id = none := by
    rw [List.lookup_eq_none_iff]
    intro r hr
    simp only [bne_iff_ne]
    intro he
    exact h (he ▸ List.mem_map_of_mem hr)
  rw [row, hnone]
  rfl

theorem mem_keys_of_mem_row {x : String} (h : x ∈ t.row id) : id ∈ t.keys := by
  by_cases hid : id ∈ t.keys
  · exact hid
  · rw [row_of_notMem_keys hid] at h
    cases h

theorem nodup_row (t : Adjacency) (id : String) : (t.row id).Nodup := by
  by_cases h : id ∈ t.keys
  · exact t.nodup_rows _ (row_mem_rows h)
  · rw [row_of_notMem_keys h]
    exact List.nodup_nil

theorem mem_pairs {a b : String} : (a, b) ∈ t.pairs ↔ b ∈ t.row a := by
  simp only [pairs, List.mem_flatMap, List.mem_map, Prod.mk.injEq]
  constructor
  · rintro ⟨⟨k, ids⟩, hrow, x, hx, rfl, rfl⟩
    rw [row_of_mem hrow]
    exact hx
  · intro h
    exact ⟨_, row_mem_rows (mem_keys_of_mem_row h), b, h, rfl, rfl⟩

/-! ## New ids -/

theorem withKey_of_mem (h : id ∈ t.keys) : t.withKey id = t := dif_pos h

theorem rows_withKey_of_notMem (h : id ∉ t.keys) : (t.withKey id).rows = t.rows ++ [(id, [])] := by
  rw [withKey, dif_neg h]

theorem keys_withKey (t : Adjacency) (id : String) : (t.withKey id).keys = mention t.keys id := by
  by_cases h : id ∈ t.keys
  · rw [withKey_of_mem h, mention_of_mem h]
  · rw [mention_of_notMem h, keys, rows_withKey_of_notMem h, List.map_append]
    rfl

theorem row_withKey (t : Adjacency) (id u : String) : (t.withKey id).row u = t.row u := by
  by_cases h : id ∈ t.keys
  · rw [withKey_of_mem h]
  · rw [row, rows_withKey_of_notMem h, List.lookup_append, row]
    cases t.rows.lookup u with
    | some ids => rfl
    | none =>
      rw [Option.none_or, List.lookup_cons]
      cases u == id <;> rfl

theorem pairs_withKey (t : Adjacency) (id : String) : (t.withKey id).pairs = t.pairs := by
  by_cases h : id ∈ t.keys
  · rw [withKey_of_mem h]
  · simp [pairs, rows_withKey_of_notMem h]

/-! ## New ids in a row -/

theorem keys_insert (t : Adjacency) (key id : String) : (t.insert key id).keys = t.keys := by
  simp only [keys, insert, List.map_map]
  exact List.map_congr_left fun row _ => fst_extended key id row

theorem row_insert {key : String} (h : key ∈ t.keys) (id u : String) :
    (t.insert key id).row u = if u = key then mention (t.row u) id else t.row u := by
  by_cases hu : u ∈ t.keys
  · have hmem : extended key id (u, t.row u) ∈ (t.insert key id).rows :=
      List.mem_map_of_mem (row_mem_rows hu)
    unfold extended at hmem
    split at hmem <;> next hk =>
      rw [row_of_mem hmem]
      simp only at hk
      simp [hk]
  · have hne : u ≠ key := fun he => hu (he ▸ h)
    rw [if_neg hne, row_of_notMem_keys hu, row_of_notMem_keys (by rwa [keys_insert])]

theorem map_extended_of_notMem {rows : List (String × List String)} {key : String}
    (h : key ∉ rows.map (·.1)) (id : String) : rows.map (extended key id) = rows := by
  have hrow : ∀ row ∈ rows, extended key id row = row := by
    intro row hmem
    rw [extended, if_neg]
    intro he
    exact h (he ▸ List.mem_map_of_mem hmem)
  rw [List.map_congr_left hrow, List.map_id']

/-- A new id in a row is one more pair. -/
theorem length_pairs_insert {key : String} (h : key ∈ t.keys) (hid : id ∉ t.row key) :
    (t.insert key id).pairs.length = t.pairs.length + 1 := by
  have hmem := row_mem_rows h
  -- The rows before and after the row of the key stay.
  obtain ⟨before, after, hrows⟩ := List.append_of_mem hmem
  have hkeys := t.nodup_keys
  rw [hrows, List.map_append, List.map_cons, List.nodup_append, List.nodup_cons] at hkeys
  obtain ⟨-, ⟨hafter, -⟩, hne⟩ := hkeys
  have hbefore : key ∉ before.map (·.1) := fun hk => hne _ hk _ List.mem_cons_self rfl
  have hnew : (t.insert key id).rows = before ++ (key, t.row key ++ [id]) :: after := by
    show t.rows.map (extended key id) = _
    rw [hrows, List.map_append, List.map_cons, map_extended_of_notMem hbefore,
      map_extended_of_notMem hafter, extended, if_pos rfl, mention_of_notMem hid]
  simp only [pairs, hnew, hrows, List.length_flatMap]
  simp
  omega

end Adjacency

end EffectGraph
