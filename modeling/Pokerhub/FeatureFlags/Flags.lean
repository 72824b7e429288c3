import Pokerhub.Core.Grouping
import Pokerhub.Core.OrderedMap

/-!
# Feature flags

`FeatureFlagsService` of `feature-flags.service.ts` over Redis. A flag is a text under a key of its
own, and the keys of all flags are in a set, which is read in batches; if the set is empty, all keys
are gone through for those that look like flags. After any sequence of changes the list of all flags
agrees with what each flag answers by itself, except that texts which are not in the set are listed
as long as the set is empty only (`getAll_exact`). The set has a key that looks like a flag's, too:
the flag `keys` replaces the set by a text, and from then on there is no list (`getAll_keys`).
-/

namespace Pokerhub.FeatureFlags

open List

def keyPrefix : String := "feature-flag:"

/-- The key of the set. -/
def keySet : String := "feature-flag:keys"

/-- The data: the texts, and the members of the one set. -/
structure Db where
  texts : OrderedMap String String := .empty
  members : List String := []
  /-- A key has one type, and there are no empty sets. -/
  typed : texts.get? keySet = none ∨ members = [] := by exact Or.inr rfl

namespace Db

/-- `SET`, which replaces a value of any type. -/
def set (key value : String) (db : Db) : Db where
  texts := db.texts.set key value
  members := if key = keySet then [] else db.members
  typed := by
    rw [OrderedMap.get?_set]
    by_cases hkey : key = keySet
    · exact Or.inr (if_pos hkey)
    · rw [if_neg hkey, if_neg (Ne.symm hkey)]
      exact db.typed

/-- `SADD` to the set; it does nothing when there is a text. -/
def sadd (member : String) (db : Db) : Db where
  texts := db.texts
  members := if db.texts.get? keySet = none then Grouping.add db.members member else db.members
  typed := by
    by_cases hnone : db.texts.get? keySet = none
    · exact Or.inl hnone
    · rw [if_neg hnone]
      exact db.typed

/-- `DEL`. -/
def del (key : String) (db : Db) : Db where
  texts := db.texts.delete key
  members := if key = keySet then [] else db.members
  typed := by
    rw [OrderedMap.get?_delete]
    split_ifs with hkey hset
    · exact Or.inl rfl
    · exact Or.inl rfl
    · exact Or.inr rfl
    · exact db.typed

/-- `SREM` from the set; it does nothing when there is a text. -/
def srem (member : String) (db : Db) : Db where
  texts := db.texts
  members := db.members.filter fun m => m ≠ member
  typed := by
    rcases db.typed with h | h
    · exact Or.inl h
    · rw [h]
      exact Or.inr rfl

/-- All keys. -/
def keys (db : Db) : List String :=
  db.texts.entries.map Prod.fst ++ if db.members = [] then [] else [keySet]

end Db

/-! ### Scans -/

/-- The batches of a scan from a cursor on, until the cursor is 0 again. -/
def walk (batch : ℕ → List String → ℕ × List String) (xs : List String) :
    ℕ → ℕ → Option (List String)
  | 0, _ => none
  | fuel + 1, cursor =>
    let (next, found) := batch cursor xs
    if next = 0 then some found else (walk batch xs fuel next).map (found ++ ·)

/-- `SCAN` and `SSCAN`. A scan comes to its end, and it finds what is there, some of it more than
once. -/
structure Scanner where
  batch : ℕ → List String → ℕ × List String
  complete : ∀ xs, ∃ fuel found, walk batch xs fuel 0 = some found ∧ ∀ x, x ∈ found ↔ x ∈ xs

/-! ### The service -/

inductive FlagError where
  | wrongType
  deriving DecidableEq

def fullKey (key : String) : String :=
  keyPrefix ++ key

/-- `k.slice(this.prefix.length)`. -/
def short (k : String) : String :=
  String.ofList (k.toList.drop keyPrefix.length)

def isOn (value : Option String) : Bool :=
  value = some "1" || value = some "true"

/-- `value ? '1' : '0'`. -/
def textOf (value : Bool) : String :=
  if value then "1" else "0"

/-- `result[short] = value`, which does nothing for `__proto__`. -/
def setFlag (result : OrderedMap String Bool) (name : String) (value : Bool) :
    OrderedMap String Bool :=
  if name = "__proto__" then result else result.set name value

/-- The keys of the flags. -/
def flagKeys (S : Scanner) (fuel : ℕ) (db : Db) : Option (List String) := do
  let keys := (← walk S.batch db.members fuel 0).foldl Grouping.add []
  if keys ≠ [] then return keys
  let scanned ← walk S.batch db.keys fuel 0
  return (scanned.filter fun k => keyPrefix.toList.isPrefixOf k.toList).foldl Grouping.add []

/-- The values of the keys. -/
def listFlags (db : Db) (ks : List String) : OrderedMap String Bool :=
  ks.foldl (fun result k => setFlag result (short k) (isOn (db.texts.get? k))) .empty

/-- It returns nothing if the scans take longer than `fuel`. -/
def getAll (S : Scanner) (fuel : ℕ) (db : Db) :
    Option (Except FlagError (OrderedMap String Bool)) :=
  if (db.texts.get? keySet).isSome then some (.error .wrongType)
  else (flagKeys S fuel db).map fun ks => .ok (listFlags db ks)

def get (key : String) (db : Db) : Except FlagError (Option Bool) :=
  if fullKey key = keySet ∧ db.members ≠ [] then .error .wrongType
  else .ok ((db.texts.get? (fullKey key)).map fun value => isOn (some value))

def set (key : String) (value : Bool) (db : Db) : Db :=
  (db.set (fullKey key) (textOf value)).sadd (fullKey key)

def delete (key : String) (db : Db) : Db :=
  (db.del (fullKey key)).srem (fullKey key)

inductive Change where
  | set (key : String) (value : Bool)
  | delete (key : String)
  deriving DecidableEq

def Change.key : Change → String
  | set key _ | delete key => key

def Change.value : Change → Option Bool
  | set _ value => some value
  | delete _ => none

def Change.apply (db : Db) : Change → Db
  | set key value => FeatureFlags.set key value db
  | delete key => FeatureFlags.delete key db

def changed (db : Db) (changes : List Change) : Db :=
  changes.foldl Change.apply db

/-- What the last change of a flag has made of it. -/
def flagAfter (changes : List Change) (name : String) : Option Bool :=
  changes.foldl (fun flag change => if change.key = name then change.value else flag) none

/-! ### Keys -/

@[simp] lemma short_fullKey (name : String) : short (fullKey name) = name := by
  have hlist : (fullKey name).toList = keyPrefix.toList ++ name.toList := String.toList_append
  rw [short, hlist, ← String.length_toList, drop_left, String.ofList_toList]

lemma fullKey_injective {name name' : String} (h : fullKey name = fullKey name') :
    name = name' := by
  rw [← short_fullKey name, h, short_fullKey]

lemma fullKey_ne_keySet {name : String} (h : name ≠ "keys") : fullKey name ≠ keySet :=
  fun heq => h (@fullKey_injective name "keys" heq)

/-- The keys that look like flags. -/
lemma isPrefixOf_iff {k : String} :
    keyPrefix.toList.isPrefixOf k.toList = true ↔ ∃ name, k = fullKey name := by
  refine isPrefixOf_iff_prefix.trans ⟨?_, ?_⟩
  · rintro ⟨rest, hrest⟩
    refine ⟨String.ofList rest, String.toList_injective ?_⟩
    rw [← hrest]
    exact (String.toList_append.trans (by rw [String.toList_ofList])).symm
  · rintro ⟨name, rfl⟩
    exact ⟨name.toList, String.toList_append.symm⟩

/-! ### Scans and lists -/

lemma walk_mono {batch : ℕ → List String → ℕ × List String} {xs found : List String}
    {fuel fuel' cursor : ℕ} (h : walk batch xs fuel cursor = some found) (hle : fuel ≤ fuel') :
    walk batch xs fuel' cursor = some found := by
  induction fuel generalizing fuel' cursor found with
  | zero => cases h
  | succ fuel ih =>
    obtain ⟨more, rfl⟩ := Nat.exists_eq_add_of_le' hle
    rw [Nat.add_succ, walk]
    rw [walk] at h
    dsimp only at h ⊢
    by_cases hnext : (batch cursor xs).1 = 0
    · rw [if_pos hnext] at h ⊢
      exact h
    · rw [if_neg hnext] at h ⊢
      obtain ⟨rest, hrest, rfl⟩ := Option.map_eq_some_iff.mp h
      rw [ih hrest (Nat.le_add_left fuel more)]
      rfl

/-- With enough fuel the keys are found. -/
lemma flagKeys_eq (S : Scanner) (db : Db) :
    ∃ fuel₀ ks, (∀ fuel, fuel₀ ≤ fuel → flagKeys S fuel db = some ks) ∧
      ∀ k, k ∈ ks ↔ k ∈ db.members ∨
        db.members = [] ∧ (∃ name, k = fullKey name) ∧ db.texts.get? k ≠ none := by
  obtain ⟨n₁, found₁, hwalk₁, hmem₁⟩ := S.complete db.members
  obtain ⟨n₂, found₂, hwalk₂, hmem₂⟩ := S.complete db.keys
  by_cases hempty : db.members = []
  · -- the set is empty, and all keys are gone through
    have hfound₁ : found₁ = [] := by
      refine eq_nil_iff_forall_not_mem.mpr fun k hk => ?_
      rw [hmem₁, hempty] at hk
      exact not_mem_nil hk
    refine ⟨n₁ + n₂, (found₂.filter fun k => keyPrefix.toList.isPrefixOf k.toList).foldl
      Grouping.add [], fun fuel hfuel => ?_, fun k => ?_⟩
    · unfold flagKeys
      rw [walk_mono hwalk₁ (Nat.le_trans (Nat.le_add_right n₁ n₂) hfuel), hfound₁,
        walk_mono hwalk₂ (Nat.le_trans (Nat.le_add_left n₂ n₁) hfuel)]
      rfl
    · rw [Grouping.mem_foldl_add, mem_filter, isPrefixOf_iff, hmem₂, Db.keys, if_pos hempty,
        append_nil, hempty, OrderedMap.mem_keys]
      exact or_congr Iff.rfl ⟨fun h => ⟨rfl, h.2, h.1⟩, fun h => ⟨h.2.2, h.2.1⟩⟩
  · have hne : found₁.foldl Grouping.add [] ≠ [] := by
      obtain ⟨k, hk⟩ := exists_mem_of_ne_nil _ hempty
      exact ne_nil_of_mem (Grouping.mem_foldl_add.mpr (Or.inr ((hmem₁ k).mpr hk)))
    refine ⟨n₁, found₁.foldl Grouping.add [], fun fuel hfuel => ?_, fun k => ?_⟩
    · unfold flagKeys
      rw [walk_mono hwalk₁ hfuel]
      simp only [Option.bind_eq_bind, Option.bind_some, if_pos hne]
      rfl
    · rw [Grouping.mem_foldl_add, hmem₁]
      simp [hempty]

lemma get?_setFlag (result : OrderedMap String Bool) (name name' : String) (value : Bool) :
    (setFlag result name value).get? name' =
      if name' ≠ "__proto__" ∧ name' = name then some value else result.get? name' := by
  unfold setFlag
  by_cases hproto : name = "__proto__"
  · rw [if_pos hproto, if_neg]
    rintro ⟨hne, rfl⟩
    exact hne hproto
  · rw [if_neg hproto, OrderedMap.get?_set]
    refine if_congr ⟨fun heq => ⟨?_, heq⟩, And.right⟩ rfl rfl
    rw [heq]
    exact hproto

/-- The list that is made of the keys. -/
lemma get?_foldl {db : Db} {ks : List String} (hks : ∀ k ∈ ks, ∃ name, k = fullKey name)
    (result : OrderedMap String Bool) (name : String) :
    (ks.foldl (fun result k => setFlag result (short k) (isOn (db.texts.get? k)))
        result).get? name =
      if name ≠ "__proto__" ∧ fullKey name ∈ ks then some (isOn (db.texts.get? (fullKey name)))
      else result.get? name := by
  induction ks generalizing result with
  | nil => rw [foldl_nil, if_neg fun h => not_mem_nil h.2]
  | cons k ks ih =>
    obtain ⟨name', rfl⟩ := hks k mem_cons_self
    rw [foldl_cons, ih fun k hk => hks k (mem_cons_of_mem _ hk), get?_setFlag, short_fullKey]
    by_cases hproto : name = "__proto__"
    · rw [if_neg fun h => h.1 hproto, if_neg fun h => h.1 hproto, if_neg fun h => h.1 hproto]
    · by_cases hmem : fullKey name ∈ ks
      · rw [if_pos ⟨hproto, hmem⟩, if_pos ⟨hproto, mem_cons_of_mem _ hmem⟩]
      · rw [if_neg fun h => hmem h.2]
        by_cases hname : name = name'
        · rw [if_pos ⟨hproto, hname⟩, hname, if_pos ⟨hname ▸ hproto, mem_cons_self⟩]
        · rw [if_neg fun h => hname h.2, if_neg]
          rintro ⟨-, h⟩
          rcases mem_cons.mp h with h | h
          · exact hname (fullKey_injective h)
          · exact hmem h

/-! ### Changes -/

@[simp] lemma isOn_textOf (value : Bool) : isOn (some (textOf value)) = value := by
  cases value <;> decide

lemma flagAfter_set (changes : List Change) (key : String) (value : Bool) (name : String) :
    flagAfter (changes ++ [.set key value]) name =
      if key = name then some value else flagAfter changes name := by
  rw [flagAfter, foldl_append]
  rfl

lemma flagAfter_delete (changes : List Change) (key name : String) :
    flagAfter (changes ++ [.delete key]) name =
      if key = name then none else flagAfter changes name := by
  rw [flagAfter, foldl_append]
  rfl

/-- The flags that were changed. -/
lemma mem_keys_append {changes : List Change} {c : Change} {name : String} :
    name ∈ (changes ++ [c]).map Change.key ↔ name ∈ changes.map Change.key ∨ c.key = name := by
  rw [map_append, mem_append, map_singleton, mem_singleton, @eq_comm _ name]

lemma mem_keys_of_flagAfter {changes : List Change} {name : String}
    (h : flagAfter changes name ≠ none) : name ∈ changes.map Change.key := by
  induction changes using reverseRecOn with
  | nil => exact absurd rfl h
  | append_singleton changes c ih =>
    rw [mem_keys_append, or_iff_not_imp_right]
    intro hne
    refine ih fun hnone => h ?_
    rw [flagAfter, foldl_append]
    exact (if_neg hne).trans hnone

/-- What the changes have made of the data. -/
structure Kept (db₀ : Db) (changes : List Change) (db : Db) : Prop where
  noText : db.texts.get? keySet = none
  members : ∀ k, k ∈ db.members ↔ ∃ name, k = fullKey name ∧ flagAfter changes name ≠ none
  texts : ∀ name, db.texts.get? (fullKey name) =
    if name ∈ changes.map Change.key then (flagAfter changes name).map textOf
    else db₀.texts.get? (fullKey name)

variable {db₀ db : Db} {changes : List Change}

lemma Kept.set (h : Kept db₀ changes db) {key : String} (hkey : key ≠ "keys") (value : Bool) :
    Kept db₀ (changes ++ [.set key value]) (FeatureFlags.set key value db) := by
  have hne := fullKey_ne_keySet hkey
  have hnone : (db.texts.set (fullKey key) (textOf value)).get? keySet = none := by
    rw [OrderedMap.get?_set, if_neg (Ne.symm hne)]
    exact h.noText
  have hmembers : (FeatureFlags.set key value db).members =
      Grouping.add db.members (fullKey key) := by
    show (if (db.texts.set (fullKey key) (textOf value)).get? keySet = none then
      Grouping.add (if fullKey key = keySet then [] else db.members) (fullKey key) else _) = _
    rw [if_pos hnone, if_neg hne]
  refine ⟨hnone, fun k => ?_, fun name => ?_⟩
  · rw [hmembers, Grouping.mem_add, h.members]
    constructor
    · rintro (⟨name, rfl, hflag⟩ | rfl)
      · refine ⟨name, rfl, ?_⟩
        rw [flagAfter_set]
        split_ifs
        · exact Option.some_ne_none value
        · exact hflag
      · refine ⟨key, rfl, ?_⟩
        rw [flagAfter_set, if_pos rfl]
        exact Option.some_ne_none value
    · rintro ⟨name, rfl, hflag⟩
      rw [flagAfter_set] at hflag
      by_cases hname : key = name
      · exact Or.inr (congrArg fullKey hname.symm)
      · rw [if_neg hname] at hflag
        exact Or.inl ⟨name, rfl, hflag⟩
  · show (db.texts.set (fullKey key) (textOf value)).get? (fullKey name) = _
    rw [OrderedMap.get?_set, flagAfter_set]
    by_cases hname : key = name
    · subst hname
      rw [if_pos rfl, if_pos rfl]
      exact (if_pos (mem_keys_append.mpr (Or.inr rfl))).symm
    · rw [if_neg hname, if_neg fun heq => hname (fullKey_injective heq).symm, h.texts]
      refine if_congr ⟨fun hmem => mem_keys_append.mpr (Or.inl hmem), fun hmem => ?_⟩ rfl rfl
      exact (mem_keys_append.mp hmem).resolve_right hname

lemma Kept.delete (h : Kept db₀ changes db) {key : String} (hkey : key ≠ "keys") :
    Kept db₀ (changes ++ [.delete key]) (FeatureFlags.delete key db) := by
  have hne := fullKey_ne_keySet hkey
  have hnone : (db.texts.delete (fullKey key)).get? keySet = none := by
    rw [OrderedMap.get?_delete, if_neg (Ne.symm hne)]
    exact h.noText
  have hmembers : (FeatureFlags.delete key db).members =
      db.members.filter fun m => m ≠ fullKey key := by
    show (if fullKey key = keySet then [] else db.members).filter _ = _
    rw [if_neg hne]
  refine ⟨hnone, fun k => ?_, fun name => ?_⟩
  · rw [hmembers, mem_filter, h.members, decide_eq_true_eq]
    constructor
    · rintro ⟨⟨name, rfl, hflag⟩, hk⟩
      refine ⟨name, rfl, ?_⟩
      rw [flagAfter_delete, if_neg]
      · exact hflag
      · rintro rfl
        exact hk rfl
    · rintro ⟨name, rfl, hflag⟩
      rw [flagAfter_delete] at hflag
      by_cases hname : key = name
      · rw [if_pos hname] at hflag
        exact absurd rfl hflag
      · rw [if_neg hname] at hflag
        exact ⟨⟨name, rfl, hflag⟩, fun heq => hname (fullKey_injective heq).symm⟩
  · show (db.texts.delete (fullKey key)).get? (fullKey name) = _
    rw [OrderedMap.get?_delete, flagAfter_delete]
    by_cases hname : key = name
    · subst hname
      rw [if_pos rfl, if_pos rfl]
      exact (if_pos (mem_keys_append.mpr (Or.inr rfl))).symm
    · rw [if_neg hname, if_neg fun heq => hname (fullKey_injective heq).symm, h.texts]
      refine if_congr ⟨fun hmem => mem_keys_append.mpr (Or.inl hmem), fun hmem => ?_⟩ rfl rfl
      exact (mem_keys_append.mp hmem).resolve_right hname

/-- Changes of flags other than `keys`. -/
lemma kept_changed (hnone : db₀.texts.get? keySet = none) (hempty : db₀.members = [])
    (hkeys : ∀ c ∈ changes, c.key ≠ "keys") : Kept db₀ changes (changed db₀ changes) := by
  induction changes using reverseRecOn with
  | nil =>
    refine ⟨hnone, fun k => ?_, fun name => ?_⟩
    · show k ∈ db₀.members ↔ _
      simp [hempty, flagAfter]
    · rfl
  | append_singleton changes c ih =>
    have hkept := ih fun c hc => hkeys c (mem_append_left _ hc)
    have hkey := hkeys c (mem_append_right _ mem_cons_self)
    rw [changed, foldl_append]
    cases c with
    | set key value => exact hkept.set hkey value
    | delete key => exact hkept.delete hkey

/-! ### The list of all flags -/

/-- The list has the flags of the set, or else all texts that look like flags. -/
lemma exists_getAll (S : Scanner) (hnone : db.texts.get? keySet = none)
    (hmembers : ∀ k ∈ db.members, ∃ name, k = fullKey name) :
    ∃ fuel₀ flags, (∀ fuel, fuel₀ ≤ fuel → getAll S fuel db = some (.ok flags)) ∧
      ∀ name, flags.get? name =
        if name ≠ "__proto__" ∧ (fullKey name ∈ db.members ∨
          db.members = [] ∧ db.texts.get? (fullKey name) ≠ none)
        then some (isOn (db.texts.get? (fullKey name))) else none := by
  obtain ⟨fuel₀, ks, hks, hmem⟩ := flagKeys_eq S db
  have hprefixed : ∀ k ∈ ks, ∃ name, k = fullKey name := by
    intro k hk
    rcases (hmem k).mp hk with hk | ⟨-, hk, -⟩
    · exact hmembers k hk
    · exact hk
  refine ⟨fuel₀, listFlags db ks, fun fuel hfuel => ?_, fun name => ?_⟩
  · rw [getAll, hnone, hks fuel hfuel]
    rfl
  · rw [listFlags, get?_foldl hprefixed]
    refine if_congr (and_congr Iff.rfl ((hmem _).trans (or_congr Iff.rfl ?_))) rfl rfl
    exact ⟨fun h => ⟨h.1, h.2.2⟩, fun h => ⟨h.1, ⟨name, rfl⟩, h.2⟩⟩

/-- What a flag answers by itself. -/
def flagOf (db₀ : Db) (changes : List Change) (name : String) : Option Bool :=
  if name ∈ changes.map Change.key then flagAfter changes name
  else (db₀.texts.get? (fullKey name)).map fun value => isOn (some value)

lemma Kept.get_eq (h : Kept db₀ changes db) {name : String} (hname : name ≠ "keys") :
    get name db = .ok (flagOf db₀ changes name) := by
  rw [get, if_neg fun heq => fullKey_ne_keySet hname heq.1, h.texts, flagOf]
  split_ifs
  · rw [Option.map_map]
    cases flagAfter changes name with
    | none => rfl
    | some value => exact congrArg (Except.ok ∘ some) (isOn_textOf value)
  · rfl

lemma Kept.fullKey_mem (h : Kept db₀ changes db) (name : String) :
    fullKey name ∈ db.members ↔ flagAfter changes name ≠ none := by
  rw [h.members]
  constructor
  · rintro ⟨name', heq, hflag⟩
    rw [fullKey_injective heq]
    exact hflag
  · exact fun hflag => ⟨name, rfl, hflag⟩

lemma Kept.members_ne_nil (h : Kept db₀ changes db) :
    db.members ≠ [] ↔ ∃ name ∈ changes.map Change.key, flagAfter changes name ≠ none := by
  constructor
  · intro hne
    obtain ⟨k, hk⟩ := exists_mem_of_ne_nil _ hne
    obtain ⟨name, -, hflag⟩ := (h.members k).mp hk
    exact ⟨name, mem_keys_of_flagAfter hflag, hflag⟩
  · rintro ⟨name, -, hflag⟩
    exact ne_nil_of_mem ((h.fullKey_mem name).mpr hflag)

/-- The data has some texts that look like flags, and no set. After any changes of flags other than
`keys`, a flag answers with its last change, or else with its text. As soon as and as long as a
changed flag is there, the list has the changed flags only, with what they answer, and otherwise it
has all flags. The flag `__proto__` is never in the list. -/
theorem getAll_exact (S : Scanner) (hnone : db₀.texts.get? keySet = none)
    (hempty : db₀.members = []) (hkeys : ∀ c ∈ changes, c.key ≠ "keys") :
    ∃ fuel₀ flags,
      (∀ fuel, fuel₀ ≤ fuel → getAll S fuel (changed db₀ changes) = some (.ok flags)) ∧
      ∀ name, name ≠ "keys" →
        get name (changed db₀ changes) = .ok (flagOf db₀ changes name) ∧
        flags.get? name =
          if name = "__proto__" then none
          else if ∃ name' ∈ changes.map Change.key, flagAfter changes name' ≠ none
          then flagAfter changes name
          else flagOf db₀ changes name := by
  have hkept := kept_changed hnone hempty hkeys
  obtain ⟨fuel₀, flags, hall, hflags⟩ := exists_getAll S hkept.noText fun k hk => by
    obtain ⟨name, hname, -⟩ := (hkept.members k).mp hk
    exact ⟨name, hname⟩
  refine ⟨fuel₀, flags, hall, fun name hname => ⟨hkept.get_eq hname, ?_⟩⟩
  have hget := hkept.get_eq hname
  rw [get, if_neg fun heq => fullKey_ne_keySet hname heq.1, Except.ok.injEq] at hget
  rw [hflags]
  by_cases hproto : name = "__proto__"
  · rw [if_neg fun h => h.1 hproto, if_pos hproto]
  rw [if_neg hproto]
  by_cases hsome : ∃ name' ∈ changes.map Change.key, flagAfter changes name' ≠ none
  · have hne := hkept.members_ne_nil.mpr hsome
    rw [if_pos hsome]
    by_cases hflag : flagAfter changes name = none
    · rw [hflag, if_neg]
      rintro ⟨-, hmem | ⟨hnil, -⟩⟩
      · exact (hkept.fullKey_mem name).mp hmem hflag
      · exact hne hnil
    · obtain ⟨value, hvalue⟩ := Option.ne_none_iff_exists'.mp hflag
      rw [if_pos ⟨hproto, Or.inl ((hkept.fullKey_mem name).mpr hflag)⟩, hkept.texts,
        if_pos (mem_keys_of_flagAfter hflag), hvalue]
      exact congrArg some (isOn_textOf value)
  · -- the set is empty, and the texts are gone through
    have hnil : (changed db₀ changes).members = [] :=
      Classical.byContradiction fun hne => hsome (hkept.members_ne_nil.mp hne)
    rw [if_neg hsome, ← hget, hnil]
    cases htext : (changed db₀ changes).texts.get? (fullKey name) with
    | none => exact if_neg fun h => h.2.elim not_mem_nil fun h => h.2 rfl
    | some value => exact if_pos ⟨hproto, Or.inr ⟨rfl, Option.some_ne_none value⟩⟩

/-- A scan of one batch. -/
def oneBatch : Scanner where
  batch _ xs := (0, xs)
  complete xs := ⟨1, xs, rfl, fun _ => Iff.rfl⟩

/-- A flag that was there before the set. -/
def oldDealing : Db where
  texts := OrderedMap.empty.set (fullKey "dealing") "0"

/-- It still answers, but it is no longer in the list. -/
theorem getAll_exact_oldDealing : ∃ fuel₀ flags,
    (∀ fuel, fuel₀ ≤ fuel →
      getAll oneBatch fuel (changed oldDealing [.set "chat" true]) = some (.ok flags)) ∧
    get "dealing" (changed oldDealing [.set "chat" true]) = .ok (some false) ∧
    flags.get? "dealing" = none := by
  obtain ⟨fuel₀, flags, hall, hflags⟩ :=
    @getAll_exact oldDealing [.set "chat" true] oneBatch (by decide) rfl (by decide)
  obtain ⟨hget, hlist⟩ := hflags "dealing" (by decide)
  exact ⟨fuel₀, flags, hall, hget.trans (by decide), hlist.trans (by decide)⟩

/-! ### The flag `keys` -/

lemma isSome_apply {c : Change} (h : (db.texts.get? keySet).isSome) (hc : c ≠ .delete "keys") :
    ((c.apply db).texts.get? keySet).isSome := by
  cases c with
  | set key value =>
    show ((db.texts.set (fullKey key) (textOf value)).get? keySet).isSome
    rw [OrderedMap.get?_set]
    split_ifs
    · rfl
    · exact h
  | delete key =>
    show ((db.texts.delete (fullKey key)).get? keySet).isSome
    have hkey : key ≠ "keys" := fun heq => hc (congrArg Change.delete heq)
    rw [OrderedMap.get?_delete, if_neg (Ne.symm (fullKey_ne_keySet hkey))]
    exact h

/-- Once the flag `keys` was set there is no list, whatever came before, until this flag is
deleted. -/
theorem getAll_keys (S : Scanner) (db₀ : Db) (changes : List Change) (value : Bool)
    {more : List Change} (hmore : .delete "keys" ∉ more) (fuel : ℕ) :
    getAll S fuel (changed db₀ (changes ++ .set "keys" value :: more)) =
      some (.error .wrongType) := by
  rw [getAll, if_pos]
  rw [changed, foldl_append, foldl_cons]
  have hset : ((Change.apply (changes.foldl Change.apply db₀) (.set "keys" value)).texts.get?
      keySet).isSome := by
    show ((OrderedMap.set keySet (textOf value) _).get? keySet).isSome
    rw [OrderedMap.get?_set, if_pos rfl]
    rfl
  generalize Change.apply (changes.foldl Change.apply db₀) (.set "keys" value) = db at hset ⊢
  induction more generalizing db with
  | nil => exact hset
  | cons c more ih =>
    have hc : c ≠ .delete "keys" := fun heq => hmore (heq ▸ mem_cons_self)
    exact ih (fun hmem => hmore (mem_cons_of_mem _ hmem)) _ (isSome_apply hset hc)

theorem getAll_keys_set : getAll oneBatch 5 (changed {}
    ([.set "chat" true] ++ .set "keys" false :: [.set "chat" false, .delete "chat"])) =
      some (.error .wrongType) :=
  getAll_keys oneBatch {} [.set "chat" true] false (by decide) 5

end Pokerhub.FeatureFlags
