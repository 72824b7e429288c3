import Mathlib.Logic.Function.Basic
import Pokerhub.Core.Numerals
import Pokerhub.Core.OrderedMap

/-!
# Levels of a tournament

What `TournamentService` of `tournament.service.ts` knows of the current level of a tournament and
of the blinds that were patched for a level. It is kept in memory and written to Redis, as texts
that a new process reads when it starts. Redis may be missing, or may not take a text.

A service that knows and keeps levels is `Spec`, without texts and keys. The service answers as this
one does, and it always starts (`answers_as_spec`), as long as the ids have no colon. So a restart
changes no patch of a tournament whose last patch was saved, also when earlier ones were not
(`restart_keeps_patches`).
-/

namespace Pokerhub.TournamentService.Levels

open Function List

/-- `{ smallBlind, bigBlind }` -/
structure Blinds where
  smallBlind : ℕ
  bigBlind : ℕ
  deriving DecidableEq

def Blinds.toJson (blinds : Blinds) : Json :=
  .object [("smallBlind", .number blinds.smallBlind), ("bigBlind", .number blinds.bigBlind)]

/-! ### Keys and texts -/

/-- `tournament:` -/
def keyStart : Text :=
  ['t', 'o', 'u', 'r', 'n', 'a', 'm', 'e', 'n', 't', ':']

/-- `currentLevel` -/
def currentLevelEnding : Text :=
  ['c', 'u', 'r', 'r', 'e', 'n', 't', 'L', 'e', 'v', 'e', 'l']

/-- `patchedLevels` -/
def patchedLevelsEnding : Text :=
  ['p', 'a', 't', 'c', 'h', 'e', 'd', 'L', 'e', 'v', 'e', 'l', 's']

/-- `tournament:${id}:` and an ending. -/
def levelKey (ending id : Text) : Text :=
  keyStart ++ (id ++ ':' :: ending)

def currentLevelKey (id : Text) : Text :=
  levelKey currentLevelEnding id

def patchedLevelsKey (id : Text) : Text :=
  levelKey patchedLevelsEnding id

/-- `key.split(':')[1]` -/
def tournamentId (key : Text) : Text :=
  (key.splitOn ':').getD 1 []

/-- The pattern `tournament:*:` and an ending. -/
def matchesKey (ending key : Text) : Bool :=
  keyStart.isPrefixOf key && (':' :: ending).isSuffixOf (key.drop keyStart.length)

def keys (ending : Text) (redis : OrderedMap Text Text) : List Text :=
  (redis.entries.map Prod.fst).filter (matchesKey ending)

/-- The order that `KEYS` lists the keys in. -/
structure Listing where
  list : List Text → List Text
  perm : ∀ keys, (list keys).Perm keys

/-- `level.toString()` -/
def levelText (level : ℕ) : Text :=
  Nat.toDigits 10 level

/-- `Number(text)`, if it is a level. -/
def readLevel (text : Text) : Option ℕ := do
  let x ← numeral text
  if x.den = 1 ∧ 0 ≤ x.num then some x.num.toNat else none

/-- The text of `Object.fromEntries`, which lists the smaller levels first. -/
def patchesText (levels : OrderedMap ℕ Json) : Text :=
  Json.stringify (.object ((levels.entries.mergeSort fun e e' => e.1 ≤ e'.1).map fun e =>
    (String.ofList (levelText e.1), e.2)))

/-- The map that `onModuleInit` makes of a text, if it is one of levels. -/
def readPatches (text : Text) : Option (OrderedMap ℕ Json) := do
  match ← Json.parse text with
  | .object members =>
    members.foldlM (fun levels m => do return levels.set (← readLevel m.1.toList) m.2) .empty
  | _ => none

/-! ### The service -/

structure Process where
  hasRedis : Bool
  redis : OrderedMap Text Text := .empty
  currentLevels : Text → Option ℕ := fun _ => none
  patchedLevels : Text → Option (OrderedMap ℕ Json) := fun _ => none

inductive Event where
  | handleLevelUp (tournamentId : Text) (level : ℕ) (saved : Bool)
  | hotPatchLevel (tournamentId : Text) (level : ℕ) (blinds : Blinds) (saved : Bool)
  | restart (listing : Listing)

namespace Process

/-- `this.redis?.set(..)`, which Redis may not take. -/
def write (key value : Text) (saved : Bool) (s : Process) : Process :=
  if s.hasRedis && saved then { s with redis := s.redis.set key value } else s

def handleLevelUp (id : Text) (level : ℕ) (saved : Bool) (s : Process) : Process :=
  { s with currentLevels := update s.currentLevels id (some level) }.write
    (currentLevelKey id) (levelText level) saved

def getCurrentLevel (id : Text) (s : Process) : ℕ :=
  (s.currentLevels id).getD 1

def hotPatchLevel (id : Text) (level : ℕ) (blinds : Blinds) (saved : Bool) (s : Process) :
    Process :=
  let levels := ((s.patchedLevels id).getD .empty).set level blinds.toJson
  { s with patchedLevels := update s.patchedLevels id (some levels) }.write
    (patchedLevelsKey id) (patchesText levels) saved

def getHotPatchedLevel (id : Text) (level : ℕ) (s : Process) : Option Json :=
  (s.patchedLevels id).bind (·.get? level)

end Process

/-- A loop of `onModuleInit`: what is read goes to the id in the key, and a key without a value is
passed over. -/
def restore {β : Type} (get : Text → Option Text) (read : Text → Option β) :
    List Text → (Text → Option β) → Option (Text → Option β)
  | [], map => some map
  | key :: keys, map =>
    match get key with
    | none => restore get read keys map
    | some value => do restore get read keys (update map (tournamentId key) (some (← read value)))

namespace Process

/-- It fails if there is a text that is not one of levels. -/
def onModuleInit (listing : Listing) (s : Process) : Option Process :=
  if s.hasRedis then do
    let currentLevels ← restore s.redis.get? readLevel
      (listing.list (keys currentLevelEnding s.redis)) s.currentLevels
    let patchedLevels ← restore (fun key => (s.redis.get? key).filter (· ≠ [])) readPatches
      (listing.list (keys patchedLevelsEnding s.redis)) s.patchedLevels
    return { s with currentLevels := currentLevels, patchedLevels := patchedLevels }
  else some s

/-- A new process has what is in Redis. -/
def step (s : Process) : Event → Option Process
  | .handleLevelUp id level saved => some (s.handleLevelUp id level saved)
  | .hotPatchLevel id level blinds saved => some (s.hotPatchLevel id level blinds saved)
  | .restart listing => onModuleInit listing { hasRedis := s.hasRedis, redis := s.redis }

def run (s : Process) (events : List Event) : Option Process :=
  events.foldlM step s

end Process

/-! ### What the service is for -/

structure Known where
  current : Text → Option ℕ := fun _ => none
  patched : Text → ℕ → Option Blinds := fun _ _ => none

/-- What is known now, and what is kept for the next start. -/
structure Spec where
  now : Known := {}
  kept : Known := {}

namespace Spec

/-- All patches of a tournament are kept together. -/
def step (hasRedis : Bool) (s : Spec) : Event → Spec
  | .handleLevelUp id level saved =>
    { now := { s.now with current := update s.now.current id (some level) }
      kept := if hasRedis && saved then
          { s.kept with current := update s.kept.current id (some level) }
        else s.kept }
  | .hotPatchLevel id level blinds saved =>
    let patches := update (s.now.patched id) level (some blinds)
    { now := { s.now with patched := update s.now.patched id patches }
      kept := if hasRedis && saved then
          { s.kept with patched := update s.kept.patched id patches }
        else s.kept }
  | .restart _ => { s with now := s.kept }

def run (hasRedis : Bool) (s : Spec) (events : List Event) : Spec :=
  events.foldl (step hasRedis) s

end Spec

/-- The id is one that `split` leaves whole. -/
def Event.Named : Event → Prop
  | .handleLevelUp id _ _ | .hotPatchLevel id _ _ _ => ':' ∉ id
  | .restart _ => True

/-! ### Keys -/

variable {id id' key text ending : Text} {redis : OrderedMap Text Text} {s : Process}
  {k : Known} {spec : Spec}

lemma levelKey_injective (h : levelKey ending id = levelKey ending id') : id = id' :=
  append_cancel_right (append_cancel_left h)

lemma get?_set_levelKey (ending id id' value : Text) (redis : OrderedMap Text Text) :
    (redis.set (levelKey ending id) value).get? (levelKey ending id') =
      if id' = id then some value else redis.get? (levelKey ending id') := by
  rw [OrderedMap.get?_set]
  exact if_congr ⟨levelKey_injective, congrArg _⟩ rfl rfl

lemma currentLevelKey_ne (id id' : Text) : currentLevelKey id ≠ patchedLevelsKey id' := by
  intro h
  have hlast := congrArg getLast? h
  simp [currentLevelKey, patchedLevelsKey, levelKey, currentLevelEnding,
    patchedLevelsEnding] at hlast

lemma tournamentId_levelKey (h : ':' ∉ id) : tournamentId (levelKey ending id) = id := by
  have hkey : levelKey ending id = keyStart.dropLast ++ ':' :: (id ++ ':' :: ending) := rfl
  have hname : ':' ∉ keyStart.dropLast := by decide
  rw [tournamentId, hkey, splitOn_append_cons_self_of_not_mem hname,
    splitOn_append_cons_self_of_not_mem h]
  rfl

/-- Of an id with a colon only the first part comes back. -/
example : tournamentId (currentLevelKey ['a', ':', 'b']) = ['a'] := by decide

lemma matchesKey_levelKey : matchesKey ending (levelKey ending id) = true := by
  rw [matchesKey, levelKey, Bool.and_eq_true, isPrefixOf_iff_prefix, isSuffixOf_iff_suffix,
    drop_left]
  exact ⟨prefix_append _ _, suffix_append _ _⟩

/-- Endings with other last characters. -/
lemma matchesKey_eq_false {ending' : Text}
    (h : (':' :: ending).getLast? ≠ (':' :: ending').getLast?) :
    matchesKey ending (levelKey ending' id) = false := by
  refine eq_false_of_ne_true fun hmatches => h ?_
  rw [matchesKey, levelKey, Bool.and_eq_true, isSuffixOf_iff_suffix, drop_left] at hmatches
  obtain ⟨rest, hrest⟩ := hmatches.2
  have hlast := congrArg getLast? hrest
  rwa [getLast?_append_of_ne_nil _ (cons_ne_nil _ _),
    getLast?_append_of_ne_nil _ (cons_ne_nil _ _)] at hlast

lemma matchesKey_currentLevel : matchesKey currentLevelEnding (patchedLevelsKey id) = false :=
  matchesKey_eq_false (by decide)

lemma matchesKey_patchedLevels : matchesKey patchedLevelsEnding (currentLevelKey id) = false :=
  matchesKey_eq_false (by decide)

lemma mem_keys :
    key ∈ keys ending redis ↔ redis.get? key ≠ none ∧ matchesKey ending key = true := by
  rw [keys, mem_filter, OrderedMap.mem_keys]

/-! ### Texts are read back -/

lemma readLevel_levelText (level : ℕ) : readLevel (levelText level) = some level := by
  simp [readLevel, levelText, numeral_toDigits]

lemma patchesText_ne_nil (levels : OrderedMap ℕ Json) : patchesText levels ≠ [] :=
  cons_ne_nil _ _

lemma written_toJson (blinds : Blinds) : blinds.toJson.written = blinds.toJson := by
  simp [Blinds.toJson, Json.written, Json.writtenMembers]

/-- The levels of the members are read one after another. -/
lemma foldlM_members (es : List (ℕ × Json)) (levels : OrderedMap ℕ Json) :
    (es.map fun e => (String.ofList (levelText e.1), e.2)).foldlM
        (fun levels (m : String × Json) => do return levels.set (← readLevel m.1.toList) m.2)
        levels =
      some (es.foldl (fun levels e => levels.set e.1 e.2) levels) := by
  induction es generalizing levels with
  | nil => rfl
  | cons e es ih =>
    rw [map_cons, foldlM_cons, foldl_cons, ← ih, String.toList_ofList, readLevel_levelText]
    rfl

/-- A text of patches is read as a map with the same patches. -/
lemma readPatches_patchesText {levels : OrderedMap ℕ Json}
    (h : ∀ level json, levels.get? level = some json → ∃ blinds : Blinds, json = blinds.toJson) :
    ∃ levels', readPatches (patchesText levels) = some levels' ∧
      ∀ level, levels'.get? level = levels.get? level := by
  have hperm := mergeSort_perm levels.entries fun e e' => decide (e.1 ≤ e'.1)
  have hwritten : Json.writtenMembers ((levels.entries.mergeSort fun e e' => e.1 ≤ e'.1).map
      fun e => (String.ofList (levelText e.1), e.2)) =
        (levels.entries.mergeSort fun e e' => e.1 ≤ e'.1).map
          fun e => (String.ofList (levelText e.1), e.2) := by
    have hjson : ∀ e ∈ levels.entries.mergeSort fun e e' => decide (e.1 ≤ e'.1),
        ∃ blinds : Blinds, e.2 = blinds.toJson := fun e he =>
      h e.1 e.2 (OrderedMap.get?_eq_some.mpr (hperm.mem_iff.mp he))
    rw [Json.writtenMembers_eq, filter_eq_self.mpr, map_map]
    · refine map_congr_left fun e he => ?_
      obtain ⟨blinds, hblinds⟩ := hjson e he
      rw [comp_apply, hblinds, written_toJson]
    · intro m hm
      obtain ⟨e, he, rfl⟩ := mem_map.mp hm
      obtain ⟨blinds, hblinds⟩ := hjson e he
      rw [hblinds]
      rfl
  refine ⟨_, ?_, OrderedMap.get?_foldl_perm hperm⟩
  rw [readPatches, patchesText, Json.parse_stringify, Json.written, hwritten, Option.bind_eq_bind,
    Option.bind_some]
  exact foldlM_members _ _

/-- Whatever the order of the keys, each one sets the value of its tournament. -/
lemma restore_spec {β : Type} {get : Text → Option Text} {read : Text → Option β}
    {Holds : Text → β → Prop} {keys : List Text}
    (h : ∀ key ∈ keys, ∃ id value v, key = levelKey ending id ∧ ':' ∉ id ∧ get key = some value ∧
      read value = some v ∧ Holds id v) (map : Text → Option β) :
    ∃ map', restore get read keys map = some map' ∧
      ∀ id, (levelKey ending id ∈ keys → ∃ v, map' id = some v ∧ Holds id v) ∧
        (levelKey ending id ∉ keys → map' id = map id) := by
  induction keys generalizing map with
  | nil => exact ⟨map, rfl, fun id => ⟨fun hmem => absurd hmem not_mem_nil, fun _ => rfl⟩⟩
  | cons key keys ih =>
    obtain ⟨id, value, v, rfl, hid, hget, hread, hv⟩ := h key mem_cons_self
    obtain ⟨map', hmap', hrest⟩ :=
      ih (fun key hkey => h key (mem_cons_of_mem _ hkey)) (update map id (some v))
    refine ⟨map', ?_, fun id' => ?_⟩
    · rw [restore, hget]
      simp only [hread, tournamentId_levelKey hid, Option.bind_eq_bind, Option.bind_some]
      exact hmap'
    · by_cases hmem : levelKey ending id' ∈ keys
      · exact ⟨fun _ => (hrest id').1 hmem, fun hnot => absurd (mem_cons_of_mem _ hmem) hnot⟩
      · rw [(hrest id').2 hmem]
        rcases eq_or_ne id' id with rfl | hne
        · exact ⟨fun _ => ⟨v, update_self _ _ _, hv⟩, fun hnot => absurd mem_cons_self hnot⟩
        · refine ⟨fun hcons => ?_, fun _ => update_of_ne hne _ _⟩
          rcases mem_cons.mp hcons with heq | hmem'
          · exact absurd (levelKey_injective heq) hne
          · exact absurd hmem' hmem

/-! ### Memory and Redis -/

/-- What is in memory. -/
structure Knows (s : Process) (k : Known) : Prop where
  current : ∀ id, s.currentLevels id = k.current id
  patched : ∀ id level, s.getHotPatchedLevel id level = (k.patched id level).map Blinds.toJson

/-- What is in Redis. -/
structure Keeps (redis : OrderedMap Text Text) (k : Known) : Prop where
  named : ∀ key, redis.get? key ≠ none →
    ∃ id, ':' ∉ id ∧ (key = currentLevelKey id ∨ key = patchedLevelsKey id)
  current : ∀ id, redis.get? (currentLevelKey id) = (k.current id).map levelText
  patched : ∀ id text, redis.get? (patchedLevelsKey id) = some text →
    ∃ levels, text = patchesText levels ∧
      ∀ level, levels.get? level = (k.patched id level).map Blinds.toJson
  unpatched : ∀ id, redis.get? (patchedLevelsKey id) = none → ∀ level, k.patched id level = none

lemma keeps_empty : Keeps .empty {} where
  named key h := absurd (OrderedMap.get?_empty key) h
  current id := OrderedMap.get?_empty _
  patched id text h := by
    rw [OrderedMap.get?_empty] at h
    cases h
  unpatched id _ level := rfl

lemma Keeps.setCurrent (h : Keeps redis k) (hid : ':' ∉ id) (level : ℕ) :
    Keeps (redis.set (currentLevelKey id) (levelText level))
      { k with current := update k.current id (some level) } := by
  have hother : ∀ id', (redis.set (currentLevelKey id) (levelText level)).get?
      (patchedLevelsKey id') = redis.get? (patchedLevelsKey id') := fun id' => by
    rw [OrderedMap.get?_set, if_neg (currentLevelKey_ne id id').symm]
  constructor
  · intro key hkey
    rw [OrderedMap.get?_set] at hkey
    split_ifs at hkey with heq
    · exact ⟨id, hid, Or.inl heq⟩
    · exact h.named key hkey
  · intro id'
    refine (get?_set_levelKey _ id id' _ redis).trans ?_
    rcases eq_or_ne id' id with rfl | hne
    · have hnow : update k.current id' (some level) id' = some level := update_self _ _ _
      rw [if_pos rfl]
      exact (congrArg (Option.map levelText) hnow).symm
    · have hsame : update k.current id (some level) id' = k.current id' := update_of_ne hne _ _
      rw [if_neg hne]
      exact (h.current id').trans (congrArg (Option.map levelText) hsame).symm
  · exact fun id' text htext => h.patched id' text (hother id' ▸ htext)
  · exact fun id' hnone => h.unpatched id' (hother id' ▸ hnone)

lemma Keeps.setPatched (h : Keeps redis k) (hid : ':' ∉ id) {levels : OrderedMap ℕ Json}
    {patches : ℕ → Option Blinds}
    (hlevels : ∀ level, levels.get? level = (patches level).map Blinds.toJson) :
    Keeps (redis.set (patchedLevelsKey id) (patchesText levels))
      { k with patched := update k.patched id patches } := by
  constructor
  · intro key hkey
    rw [OrderedMap.get?_set] at hkey
    split_ifs at hkey with heq
    · exact ⟨id, hid, Or.inr heq⟩
    · exact h.named key hkey
  · intro id'
    rw [OrderedMap.get?_set, if_neg (currentLevelKey_ne id' id)]
    exact h.current id'
  · intro id' text htext
    have hget := (get?_set_levelKey _ id id' _ redis).symm.trans htext
    rcases eq_or_ne id' id with rfl | hne
    · have hnow : update k.patched id' patches id' = patches := update_self _ _ _
      rw [if_pos rfl] at hget
      exact ⟨levels, (Option.some.inj hget).symm, fun level => (hlevels level).trans
        (congrArg (fun known => (known level).map Blinds.toJson) hnow).symm⟩
    · have hsame : update k.patched id patches id' = k.patched id' := update_of_ne hne _ _
      rw [if_neg hne] at hget
      obtain ⟨levels', htext', hlevels'⟩ := h.patched id' text hget
      exact ⟨levels', htext', fun level => (hlevels' level).trans
        (congrArg (fun known => (known level).map Blinds.toJson) hsame).symm⟩
  · intro id' hnone level
    have hget := (get?_set_levelKey _ id id' _ redis).symm.trans hnone
    rcases eq_or_ne id' id with rfl | hne
    · rw [if_pos rfl] at hget
      cases hget
    · have hsame : update k.patched id patches id' = k.patched id' := update_of_ne hne _ _
      rw [if_neg hne] at hget
      exact (congrFun hsame level).trans (h.unpatched id' hget level)

lemma Keeps.mem_currentLevel (h : Keeps redis k) :
    ∀ key ∈ keys currentLevelEnding redis, ∃ id, ':' ∉ id ∧ key = currentLevelKey id := by
  intro key hkey
  obtain ⟨hget, hmatches⟩ := mem_keys.mp hkey
  obtain ⟨id, hid, rfl | rfl⟩ := h.named key hget
  · exact ⟨id, hid, rfl⟩
  · rw [matchesKey_currentLevel] at hmatches
    cases hmatches

lemma Keeps.mem_patchedLevels (h : Keeps redis k) :
    ∀ key ∈ keys patchedLevelsEnding redis, ∃ id, ':' ∉ id ∧ key = patchedLevelsKey id := by
  intro key hkey
  obtain ⟨hget, hmatches⟩ := mem_keys.mp hkey
  obtain ⟨id, hid, rfl | rfl⟩ := h.named key hget
  · rw [matchesKey_patchedLevels] at hmatches
    cases hmatches
  · exact ⟨id, hid, rfl⟩

lemma Listing.get?_eq_none (listing : Listing)
    (h : levelKey ending id ∉ listing.list (keys ending redis)) :
    redis.get? (levelKey ending id) = none := by
  by_contra hsome
  exact h ((listing.perm _).mem_iff.mpr (mem_keys.mpr ⟨hsome, matchesKey_levelKey⟩))

lemma Keeps.restoreCurrent (h : Keeps redis k) (listing : Listing) :
    ∃ levels, restore redis.get? readLevel (listing.list (keys currentLevelEnding redis))
        (fun _ => none) = some levels ∧ ∀ id, levels id = k.current id := by
  obtain ⟨levels, hlevels, hspec⟩ :=
    @restore_spec currentLevelEnding ℕ redis.get? readLevel
      (fun id level => k.current id = some level)
      (listing.list (keys currentLevelEnding redis)) (fun key hkey => by
        have hmem := (listing.perm _).mem_iff.mp hkey
        obtain ⟨id, hid, rfl⟩ := h.mem_currentLevel key hmem
        have hget := h.current id
        cases hlevel : k.current id with
        | none =>
          rw [hlevel] at hget
          exact absurd hget (mem_keys.mp hmem).1
        | some level =>
          rw [hlevel] at hget
          exact ⟨id, _, level, rfl, hid, hget, readLevel_levelText level, hlevel⟩) fun _ => none
  refine ⟨levels, hlevels, fun id => ?_⟩
  by_cases hmem : currentLevelKey id ∈ listing.list (keys currentLevelEnding redis)
  · obtain ⟨level, hlevel, hknown⟩ := (hspec id).1 hmem
    exact hlevel.trans hknown.symm
  · have hnone := (h.current id).symm.trans (listing.get?_eq_none hmem)
    exact ((hspec id).2 hmem).trans (Option.map_eq_none_iff.mp hnone).symm

lemma Keeps.restorePatched (h : Keeps redis k) (listing : Listing) :
    ∃ patches, restore (fun key => (redis.get? key).filter (· ≠ [])) readPatches
        (listing.list (keys patchedLevelsEnding redis)) (fun _ => none) = some patches ∧
      ∀ id level, (patches id).bind (·.get? level) =
        (k.patched id level).map Blinds.toJson := by
  obtain ⟨patches, hpatches, hspec⟩ :=
    @restore_spec patchedLevelsEnding (OrderedMap ℕ Json)
      (fun key => (redis.get? key).filter (· ≠ [])) readPatches
      (fun id levels => ∀ level, levels.get? level = (k.patched id level).map Blinds.toJson)
      (listing.list (keys patchedLevelsEnding redis)) (fun key hkey => by
        have hmem := (listing.perm _).mem_iff.mp hkey
        obtain ⟨id, hid, rfl⟩ := h.mem_patchedLevels key hmem
        obtain ⟨text, htext⟩ := Option.ne_none_iff_exists'.mp (mem_keys.mp hmem).1
        obtain ⟨levels, rfl, hlevels⟩ := h.patched id text htext
        obtain ⟨levels', hread, hsame⟩ := readPatches_patchesText fun level json hjson => by
          rw [hlevels] at hjson
          obtain ⟨blinds, -, hblinds⟩ := Option.map_eq_some_iff.mp hjson
          exact ⟨blinds, hblinds.symm⟩
        refine ⟨id, patchesText levels, levels', rfl, hid, ?_, hread, fun level => ?_⟩
        · rw [htext, Option.filter_some, if_pos (by simpa using patchesText_ne_nil levels)]
        · rw [hsame, hlevels]) fun _ => none
  refine ⟨patches, hpatches, fun id level => ?_⟩
  by_cases hmem : patchedLevelsKey id ∈ listing.list (keys patchedLevelsEnding redis)
  · obtain ⟨levels, hlevels, hknown⟩ := (hspec id).1 hmem
    rw [hlevels]
    exact hknown level
  · rw [(hspec id).2 hmem, h.unpatched id (listing.get?_eq_none hmem) level]
    rfl

/-- A new process knows what was kept. -/
lemma Keeps.onModuleInit (h : Keeps redis k) (listing : Listing) :
    ∃ s', Process.onModuleInit listing { hasRedis := true, redis := redis } = some s' ∧
      Knows s' k ∧ s'.redis = redis ∧ s'.hasRedis = true := by
  obtain ⟨levels, hlevels, hcurrent⟩ := h.restoreCurrent listing
  obtain ⟨patches, hpatches, hpatched⟩ := h.restorePatched listing
  refine ⟨⟨true, redis, levels, patches⟩, ?_, ⟨hcurrent, hpatched⟩, rfl, rfl⟩
  rw [Process.onModuleInit, if_pos rfl]
  simp only [hlevels, hpatches, Option.bind_eq_bind, Option.bind_some]
  rfl

/-! ### The service does what it is for -/

structure Agrees (s : Process) (spec : Spec) : Prop where
  now : Knows s spec.now
  kept : Keeps s.redis spec.kept
  noRedis : s.hasRedis = false → spec.kept = {}

lemma knows_empty (hasRedis : Bool) (redis : OrderedMap Text Text) :
    Knows { hasRedis := hasRedis, redis := redis } {} :=
  ⟨fun _ => rfl, fun _ _ => rfl⟩

lemma Knows.write (h : Knows s k) (key value : Text) (saved : Bool) :
    Knows (s.write key value saved) k := by
  unfold Process.write
  split_ifs
  · exact ⟨h.current, h.patched⟩
  · exact h

lemma hasRedis_write (key value : Text) (saved : Bool) :
    (s.write key value saved).hasRedis = s.hasRedis := by
  unfold Process.write
  split_ifs <;> rfl

lemma Agrees.handleLevelUp (h : Agrees s spec) (hid : ':' ∉ id) (level : ℕ) (saved : Bool) :
    Agrees (s.handleLevelUp id level saved)
      (spec.step s.hasRedis (.handleLevelUp id level saved)) where
  now := by
    have hnow : Knows { s with currentLevels := update s.currentLevels id (some level) }
        { spec.now with current := update spec.now.current id (some level) } := by
      refine ⟨fun id' => ?_, h.now.patched⟩
      exact congrArg (fun levels => update levels id (some level) id') (funext h.now.current)
    exact hnow.write _ _ _
  kept := by
    rw [Process.handleLevelUp, Process.write, Spec.step]
    split_ifs
    · exact h.kept.setCurrent hid level
    · exact h.kept
  noRedis hnone := by
    rw [Process.handleLevelUp, hasRedis_write] at hnone
    have hskip : (s.hasRedis && saved) = false := by rw [hnone, Bool.false_and]
    rw [Spec.step, hskip]
    exact h.noRedis hnone

lemma Agrees.hotPatchLevel (h : Agrees s spec) (hid : ':' ∉ id) (level : ℕ) (blinds : Blinds)
    (saved : Bool) :
    Agrees (s.hotPatchLevel id level blinds saved)
      (spec.step s.hasRedis (.hotPatchLevel id level blinds saved)) := by
  have hlevels : ∀ level', (((s.patchedLevels id).getD .empty).set level blinds.toJson).get?
      level' = (update (spec.now.patched id) level (some blinds) level').map Blinds.toJson := by
    intro level'
    have hbefore : ((s.patchedLevels id).getD .empty).get? level' =
        (spec.now.patched id level').map Blinds.toJson := by
      rw [← h.now.patched id level', Process.getHotPatchedLevel]
      cases s.patchedLevels id <;> rfl
    rw [OrderedMap.get?_set]
    rcases eq_or_ne level' level with rfl | hne
    · rw [if_pos rfl, update_self, Option.map_some]
    · rw [if_neg hne, update_of_ne hne, hbefore]
  constructor
  · have hnow : Knows
        { s with
          patchedLevels := update s.patchedLevels id
            (some (((s.patchedLevels id).getD .empty).set level blinds.toJson)) }
        { spec.now with
          patched := update spec.now.patched id
            (update (spec.now.patched id) level (some blinds)) } := by
      refine ⟨h.now.current, fun id' level' => ?_⟩
      simp only [Process.getHotPatchedLevel]
      rcases eq_or_ne id' id with rfl | hne
      · rw [update_self, update_self]
        exact hlevels level'
      · rw [update_of_ne hne, update_of_ne hne]
        exact h.now.patched id' level'
    exact hnow.write _ _ _
  · rw [Process.hotPatchLevel, Process.write, Spec.step]
    split_ifs
    · exact h.kept.setPatched hid hlevels
    · exact h.kept
  · intro hnone
    rw [Process.hotPatchLevel, hasRedis_write] at hnone
    have hskip : (s.hasRedis && saved) = false := by rw [hnone, Bool.false_and]
    simp only [Spec.step, hskip]
    exact h.noRedis hnone

lemma Agrees.step (h : Agrees s spec) {event : Event} (hname : event.Named) :
    ∃ s', s.step event = some s' ∧ Agrees s' (spec.step s.hasRedis event) ∧
      s'.hasRedis = s.hasRedis := by
  cases event with
  | handleLevelUp id level saved =>
    exact ⟨_, rfl, h.handleLevelUp hname level saved, hasRedis_write _ _ _⟩
  | hotPatchLevel id level blinds saved =>
    exact ⟨_, rfl, h.hotPatchLevel hname level blinds saved, hasRedis_write _ _ _⟩
  | restart listing =>
    cases hredis : s.hasRedis with
    | true =>
      obtain ⟨s', hinit, hknows, hkept, hstill⟩ := h.kept.onModuleInit listing
      refine ⟨s', ?_, ⟨hknows, hkept ▸ h.kept, fun hnone => ?_⟩, hstill⟩
      · rw [Process.step, hredis]
        exact hinit
      · rw [hstill] at hnone
        cases hnone
    | false =>
      have hempty := h.noRedis hredis
      refine ⟨{ hasRedis := false, redis := s.redis }, ?_, ⟨?_, h.kept, fun _ => hempty⟩, rfl⟩
      · rw [Process.step, hredis]
        rfl
      · rw [Spec.step, hempty]
        exact knows_empty false s.redis

lemma Agrees.run (h : Agrees s spec) {events : List Event} (hnames : ∀ e ∈ events, e.Named) :
    ∃ s', s.run events = some s' ∧ Agrees s' (spec.run s.hasRedis events) := by
  induction events generalizing s spec with
  | nil => exact ⟨s, rfl, h⟩
  | cons event events ih =>
    obtain ⟨s', hstep, hagrees, hredis⟩ := h.step (hnames event mem_cons_self)
    obtain ⟨s'', hrun, hfinal⟩ := ih hagrees fun e he => hnames e (mem_cons_of_mem _ he)
    refine ⟨s'', ?_, ?_⟩
    · rw [Process.run, foldlM_cons, hstep]
      exact hrun
    · rw [hredis] at hfinal
      exact hfinal

lemma agrees_create (hasRedis : Bool) : Agrees { hasRedis := hasRedis } {} :=
  ⟨knows_empty hasRedis .empty, keeps_empty, fun _ => rfl⟩

/-- Whichever writes are lost and however often the process is started again, it starts, and it
answers as the service does that keeps levels without texts and keys. -/
theorem answers_as_spec (hasRedis : Bool) (events : List Event) (hnames : ∀ e ∈ events, e.Named) :
    ∃ s, Process.run { hasRedis := hasRedis } events = some s ∧ ∀ id,
      s.getCurrentLevel id = ((Spec.run hasRedis {} events).now.current id).getD 1 ∧
        ∀ level, s.getHotPatchedLevel id level =
          ((Spec.run hasRedis {} events).now.patched id level).map Blinds.toJson := by
  obtain ⟨s, hrun, hagrees⟩ := (agrees_create hasRedis).run hnames
  refine ⟨s, hrun, fun id => ⟨?_, hagrees.now.patched id⟩⟩
  rw [Process.getCurrentLevel, hagrees.now.current id]

def inOrder : Listing where
  list keys := keys
  perm _ := Perm.refl _

def levelPersistence : List Event :=
  [.handleLevelUp ['t', '1'] 3 true, .hotPatchLevel ['t', '1'] 2 ⟨50, 100⟩ true, .restart inOrder]

theorem answers_as_spec_levelPersistence :
    ∃ s, Process.run { hasRedis := true } levelPersistence = some s ∧
      s.getCurrentLevel ['t', '1'] = 3 ∧
        s.getHotPatchedLevel ['t', '1'] 2 = some (Blinds.mk 50 100).toJson := by
  obtain ⟨s, hrun, hanswers⟩ :=
    answers_as_spec true levelPersistence (by simp [levelPersistence, Event.Named])
  obtain ⟨hcurrent, hpatched⟩ := hanswers ['t', '1']
  exact ⟨s, hrun, hcurrent.trans (by decide), (hpatched 2).trans rfl⟩

/-! ### What a restart keeps -/

/-- A patch of the tournament that is not saved. -/
def Event.Loses (id : Text) : Event → Prop
  | .hotPatchLevel id' _ _ saved => id' = id ∧ saved = false
  | _ => False

lemma patched_saved (spec : Spec) (id : Text) (level : ℕ) (blinds : Blinds) :
    (spec.step true (.hotPatchLevel id level blinds true)).kept.patched id =
      (spec.step true (.hotPatchLevel id level blinds true)).now.patched id := by
  have hkept := update_self id (update (spec.now.patched id) level (some blinds)) spec.kept.patched
  have hnow := update_self id (update (spec.now.patched id) level (some blinds)) spec.now.patched
  exact hkept.trans hnow.symm

lemma patched_step {event : Event} (hloses : ¬ event.Loses id)
    (h : spec.kept.patched id = spec.now.patched id) :
    (spec.step true event).kept.patched id = (spec.step true event).now.patched id := by
  cases event with
  | handleLevelUp id' level saved =>
    simp only [Spec.step]
    split_ifs <;> exact h
  | hotPatchLevel id' level blinds saved =>
    rcases eq_or_ne id' id with rfl | hne
    · obtain rfl : saved = true := eq_true_of_ne_false fun hlost => hloses ⟨rfl, hlost⟩
      exact patched_saved spec id' level blinds
    · simp only [Spec.step]
      rw [update_of_ne hne.symm]
      split_ifs
      · exact (update_of_ne hne.symm _ _).trans h
      · exact h
  | restart listing => rfl

lemma patched_run {events : List Event} (hloses : ∀ e ∈ events, ¬ e.Loses id)
    (h : spec.kept.patched id = spec.now.patched id) :
    (spec.run true events).kept.patched id = (spec.run true events).now.patched id := by
  induction events generalizing spec with
  | nil => exact h
  | cons event events ih =>
    exact ih (fun e he => hloses e (mem_cons_of_mem _ he))
      (patched_step (hloses event mem_cons_self) h)

lemma patched_run_saved (spec : Spec) (before : List Event) {after : List Event} (level : ℕ)
    (blinds : Blinds) (hloses : ∀ e ∈ after, ¬ e.Loses id) :
    (spec.run true (before ++ .hotPatchLevel id level blinds true :: after)).kept.patched id =
      (spec.run true (before ++ .hotPatchLevel id level blinds true :: after)).now.patched id := by
  rw [Spec.run, foldl_append, foldl_cons]
  exact patched_run hloses (patched_saved _ id level blinds)

/-- Once a patch of a tournament is saved, and as long as those after it are, a restart changes none
of its patches, whatever was lost before. -/
theorem restart_keeps_patches (before after : List Event) (id : Text) (level : ℕ) (blinds : Blinds)
    (listing : Listing) (hbefore : ∀ e ∈ before, e.Named) (hid : ':' ∉ id)
    (hafter : ∀ e ∈ after, e.Named ∧ ¬ e.Loses id) :
    ∃ s s', Process.run { hasRedis := true }
        (before ++ .hotPatchLevel id level blinds true :: after) = some s ∧
      s.step (.restart listing) = some s' ∧
        ∀ level', s'.getHotPatchedLevel id level' = s.getHotPatchedLevel id level' := by
  have hnames : ∀ e ∈ before ++ .hotPatchLevel id level blinds true :: after, e.Named := by
    intro e he
    rcases mem_append.mp he with he | he
    · exact hbefore e he
    · rcases mem_cons.mp he with rfl | he
      · exact hid
      · exact (hafter e he).1
  obtain ⟨s, hrun, hagrees⟩ := (agrees_create true).run hnames
  have hname : (Event.restart listing).Named := trivial
  obtain ⟨s', hstep, hagrees', -⟩ := hagrees.step hname
  refine ⟨s, s', hrun, hstep, fun level' => ?_⟩
  have hsame := patched_run_saved {} before level blinds fun e he => (hafter e he).2
  rw [hagrees'.now.patched, hagrees.now.patched]
  exact congrArg (fun patches => (patches level').map Blinds.toJson) hsame

/-- The first patch is lost, and written with the second one. -/
theorem restart_keeps_patches_lostFirst :
    ∃ s s', Process.run { hasRedis := true }
        ([.hotPatchLevel ['t', '1'] 2 ⟨50, 100⟩ false] ++
          .hotPatchLevel ['t', '1'] 3 ⟨100, 200⟩ true :: [.handleLevelUp ['t', '1'] 2 false]) =
        some s ∧
      s.step (.restart inOrder) = some s' ∧
        ∀ level', s'.getHotPatchedLevel ['t', '1'] level' =
          s.getHotPatchedLevel ['t', '1'] level' :=
  restart_keeps_patches _ _ _ _ _ inOrder (by simp [Event.Named]) (by decide)
    (by simp [Event.Named, Event.Loses])

end Pokerhub.TournamentService.Levels
