import Pokerhub.Core.Positional
import Pokerhub.Game.Deal

/-!
# The published proof

`HandRNG` of `rng.ts`, and the hand as it is dealt from the deck that `reveal` publishes. Both the
proof and the dealer use the shuffle of the seed, but the dealer skips `undefined` and appends the
cards that are missing. So the proof reproduces a hand exactly when the shuffle of its seed has no
`undefined` in it (`proof_reproduces_deal_iff`).
-/

namespace Pokerhub

open GameStateInternal HandStateMachine TransitionSystem List

structure HandProofResponse where
  commitment : String
  seed : String
  nonce : String
  deck : List (Option ℕ)
  deriving DecidableEq

structure HandRNG where
  seed : List UInt8
  nonce : List UInt8
  commitment : String
  deriving DecidableEq

namespace HandRNG

/-- The constructor, with the bytes that `randomBytes` returned. -/
def create (sha256 : List UInt8 → List UInt8) (seed nonce : List UInt8) : HandRNG where
  seed := seed
  nonce := nonce
  commitment := hashCommitment sha256 seed nonce

def shuffle (sha256 : List UInt8 → List UInt8) (rng : HandRNG) : Shuffle :=
  fun items => Pokerhub.shuffle sha256 items rng.seed

def reveal (sha256 : List UInt8 → List UInt8) (rng : HandRNG) : HandProofResponse where
  commitment := rng.commitment
  seed := bytesToHex rng.seed
  nonce := bytesToHex rng.nonce
  deck := Pokerhub.shuffle sha256 standardDeck rng.seed

end HandRNG

/-! ### Dealing from a proof -/

/-- Two pops for each of `n` players, from a deck in which `undefined` may occur. -/
def proofHoleCards : ℕ → List (Option ℕ) → List (List (Option ℕ))
  | 0, _ => []
  | n + 1, deck =>
    [deck.getLast?.join, deck.dropLast.getLast?.join] :: proofHoleCards n deck.dropLast.dropLast

/-- The pops after those for `n` players. -/
def proofBoard (n k : ℕ) (deck : List (Option ℕ)) : List (Option ℕ) :=
  (deck.reverse.drop (2 * n)).take k

/-- The hand on the table is the one that is dealt from the deck of the proof. -/
def Reproduces (deck : List (Option ℕ)) (s : GameStateInternal) : Prop :=
  s.players.map (·.holeCards) = (proofHoleCards s.players.length deck).map some ∧
    s.communityCards.map some = proofBoard s.players.length s.communityCards.length deck

instance (deck : List (Option ℕ)) (s : GameStateInternal) : Decidable (Reproduces deck s) :=
  inferInstanceAs (Decidable (_ ∧ _))

/-! ### The dealer's deck -/

lemma HandRNG.genuine_shuffle (sha256 : List UInt8 → List UInt8) (rng : HandRNG) :
    (rng.shuffle sha256).Genuine :=
  fun _ _ h => mem_of_some_mem_shuffle h

/-- From cards that come once, the first loop of `buildDeck` keeps all but `undefined`. -/
lemma collect_empty {shuffled : List (Option ℕ)} {deck : List ℕ}
    (h : (deck ++ shuffled.filterMap id).Nodup) :
    collect ∅ shuffled deck = deck ++ shuffled.filterMap id := by
  induction shuffled generalizing deck with
  | nil => simp [collect]
  | cons card shuffled ih =>
    rw [collect, foldl_cons, ← collect]
    cases card with
    | none => simpa using ih (by simpa using h)
    | some card =>
      simp only [filterMap_cons, id_eq] at h ⊢
      have hcard : card ∉ deck := fun hin => (nodup_append'.mp h).2.2 hin mem_cons_self
      simp only [Finset.notMem_empty, if_false, pushNew, hcard]
      rw [ih (by simpa using h)]
      simp

/-- The second loop appends what is missing. -/
lemma foldl_pushNew {cards deck : List ℕ} (h : cards.Nodup) :
    cards.foldl pushNew deck = deck ++ cards.filter (· ∉ deck) := by
  induction cards generalizing deck with
  | nil => simp
  | cons card cards ih =>
    obtain ⟨hcard, hcards⟩ := nodup_cons.mp h
    rw [foldl_cons, ih hcards, filter_cons]
    by_cases hin : card ∈ deck
    · simp [pushNew, hin]
    · have hrest : cards.filter (· ∉ deck ++ [card]) = cards.filter (· ∉ deck) := by
        refine filter_congr fun c hc => ?_
        have hne : c ≠ card := fun heq => hcard (heq ▸ hc)
        simp [hne]
      simp only [pushNew, hin, if_false, hrest, not_false_eq_true, decide_true, if_true,
        append_assoc, singleton_append]

section Rng

variable {sha256 : List UInt8 → List UInt8} {rng : HandRNG}

lemma nodup_reveal : ((rng.reveal sha256).deck.filterMap id).Nodup :=
  nodup_filterMap_shuffle nodup_standardDeck

lemma collect_reveal :
    collect ∅ (rng.shuffle sha256 standardDeck) [] = (rng.reveal sha256).deck.filterMap id :=
  collect_empty (by
    rw [nil_append]
    exact nodup_reveal)

/-- Without `undefined` the dealer deals from the deck of the proof. -/
lemma map_buildDeck_of_forall_isSome (h : ∀ x ∈ (rng.reveal sha256).deck, x.isSome) :
    (buildDeck (rng.shuffle sha256) ∅).map some = (rng.reveal sha256).deck := by
  have hsome : ((rng.reveal sha256).deck.filterMap id).map some = (rng.reveal sha256).deck := by
    generalize (rng.reveal sha256).deck = deck at h
    induction deck with
    | nil => rfl
    | cons x deck ih =>
      simp only [mem_cons, forall_eq_or_imp] at h
      obtain ⟨c, rfl⟩ := Option.isSome_iff_exists.mp h.1
      simpa using ih h.2
  have hlen := congrArg length hsome
  rw [length_map] at hlen
  rw [buildDeck_eq]
  simp only [Finset.notMem_empty, not_false_eq_true, decide_true, filter_true, collect_reveal]
  rw [if_neg (by rw [hlen]; simp [HandRNG.reveal]), hsome]

/-- With an `undefined` the last card of the dealer's deck is one that the proof lacks. -/
lemma getLast?_buildDeck_of_not (h : ¬ ∀ x ∈ (rng.reveal sha256).deck, x.isSome) :
    ∃ c, (buildDeck (rng.shuffle sha256) ∅).getLast? = some c ∧
      some c ∉ (rng.reveal sha256).deck := by
  have hshort : ((rng.reveal sha256).deck.filterMap id).length < standardDeck.length := by
    have hlen : (rng.reveal sha256).deck.length = standardDeck.length := length_shuffle
    rw [← hlen]
    generalize (rng.reveal sha256).deck = deck at h
    refine lt_of_le_of_ne (length_filterMap_le _ _) fun heq => h ?_
    have hall := filterMap_length_eq_length.mp heq
    simpa using hall
  have hmissing : standardDeck.filter (· ∉ (rng.reveal sha256).deck.filterMap id) ≠ [] := by
    intro hnone
    have hsub : standardDeck ⊆ (rng.reveal sha256).deck.filterMap id := by
      intro c hc
      simpa using filter_eq_nil_iff.mp hnone c hc
    exact absurd (subperm_of_subset nodup_standardDeck hsub).length_le (not_le.mpr hshort)
  refine ⟨getLast _ hmissing, ?_, ?_⟩
  · rw [buildDeck_eq]
    simp only [Finset.notMem_empty, not_false_eq_true, decide_true, filter_true, collect_reveal]
    rw [if_pos hshort, foldl_pushNew nodup_standardDeck, getLast?_append_of_ne_nil _ hmissing,
      getLast?_eq_some_getLast]
  · have hlast := getLast_mem hmissing
    rw [mem_filter] at hlast
    simpa using hlast.2

end Rng

/-! ### The cards on the table -/

/-- The hand is dealt from the end of a deck. -/
structure Served (deck : List ℕ) (s : GameStateInternal) : Prop where
  hole : s.HoleDealt
  cards : s.cards = deck.reverse

lemma Served.of_view {deck : List ℕ} {s s' : GameStateInternal} (h : s'.cardView = s.cardView)
    (hs : Served deck s) : Served deck s' := by
  obtain ⟨hcards, hhole⟩ := cards_eq_of_view h
  exact ⟨hhole.mpr hs.hole, hcards.trans hs.cards⟩

lemma Served.dealBoard {shuffle : Shuffle} (hgenuine : shuffle.Genuine) {s : GameStateInternal}
    {n : ℕ} (hdeal : s.CanDeal n) (h : Served (buildDeck shuffle ∅) s) :
    Served (buildDeck shuffle ∅) (s.dealBoard shuffle n) := by
  have hpartition : s.Partition := by
    refine ⟨h.hole, ?_⟩
    rw [h.cards]
    refine (reverse_perm _).trans ?_
    simpa using buildDeck_perm hgenuine ∅
  refine ⟨h.hole, ?_⟩
  rw [GameStateInternal.dealBoard, pop_cards, hpartition.ensuredDeck_eq hdeal]
  exact h.cards

/-- In a run with one shuffle every hand is dealt from the deck that it builds. -/
lemma served_of_reachable {ids : List PlayerId} {startingStack : ℕ} {shuffle : Shuffle}
    {m : HandStateMachine} (hlen : 2 ≤ ids.length) (hfew : ids.length ≤ 26)
    (hgenuine : shuffle.Genuine)
    (hreach : ((machineCalls ids startingStack).restrict fun _ l => l.1 = shuffle).Reachable m) :
    CardInv ids (Served (buildDeck shuffle ∅)) m := by
  refine hreach.invariant (I := CardInv ids (Served (buildDeck shuffle ∅))) ?_ ?_
  · rintro _ rfl
    exact .initial hlen _ _
  · rintro m ⟨_, c⟩ _ hi ⟨rfl, rfl⟩
    refine hi.call hlen hfew (fun _ _ h hs => hs.of_view h) (fun s hboard hfew => ?_)
      fun _ _ hdeal h => h.dealBoard hgenuine hdeal
    obtain ⟨hhole, hcards⟩ := startHand_cards hgenuine hboard hfew
    exact ⟨hhole, hcards⟩

/-- Hole cards, taken from the end of a deck by pops. -/
lemma holeCards_of_cards {ps : List PlayerStateInternal} {rest deck : List ℕ}
    (hhole : ∀ p ∈ ps, ∃ a b, p.holeCards = some [some a, some b])
    (hcards : (ps.flatMap fun p => (p.holeCards.getD []).filterMap id) ++ rest = deck.reverse) :
    ps.map (·.holeCards) = (proofHoleCards ps.length (deck.map some)).map some ∧
      rest.map some = (deck.map some).reverse.drop (2 * ps.length) := by
  induction ps generalizing deck with
  | nil =>
    simp only [flatMap_nil, nil_append] at hcards
    rw [← map_reverse, ← hcards]
    exact ⟨rfl, rfl⟩
  | cons p ps ih =>
    simp only [mem_cons, forall_eq_or_imp] at hhole
    obtain ⟨a, b, hp⟩ := hhole.1
    have hdeck : deck = ((ps.flatMap fun p => (p.holeCards.getD []).filterMap id) ++ rest).reverse
        ++ [b] ++ [a] := by
      have hrev := congrArg reverse hcards
      rw [reverse_reverse] at hrev
      rw [← hrev]
      simp [hp]
    obtain ⟨hrest, hboard⟩ := @ih _ hhole.2 (reverse_reverse _).symm
    constructor
    · rw [map_cons, hrest, hp, length_cons, proofHoleCards, hdeck]
      simp
    · rw [hboard, hdeck, length_cons, Nat.mul_succ]
      simp

/-- For 2 to 23 players, dealing the published deck gives the cards of a hand exactly when the
first byte of each of the 51 drawn hashes is below 128. -/
theorem proof_reproduces_deal_iff {sha256 : List UInt8 → List UInt8} {rng : HandRNG}
    {ids : List PlayerId} {startingStack : ℕ} {m : HandStateMachine} (hlen : 2 ≤ ids.length)
    (hfew : ids.length ≤ 23)
    (hreach : ((machineCalls ids startingStack).restrict
      fun _ l => l.1 = rng.shuffle sha256).Reachable m)
    (hin : m.state.phase.InHand) :
    Reproduces (rng.reveal sha256).deck m.state ↔
      ∀ counter < 51, (sha256 (rng.seed ++ encode counter)).headD 0 < 128 := by
  have hinv := served_of_reachable hlen (by omega) (rng.genuine_shuffle sha256) hreach
  obtain ⟨hhole, hcards⟩ := hinv.cards hin
  rw [cards, append_assoc, holeNumbers] at hcards
  obtain ⟨hholes, hboard⟩ := holeCards_of_cards hhole hcards
  have hsome : (∀ x ∈ (rng.reveal sha256).deck, x.isSome) ↔
      ∀ counter < 51, (sha256 (rng.seed ++ encode counter)).headD 0 < 128 :=
    forall_mem_shuffle_isSome_iff (by rw [length_standardDeck]; norm_num)
  rw [← hsome]
  constructor
  · intro h
    by_contra hundefined
    -- the first card dealt is one that the proof lacks
    obtain ⟨c, hlast, hmissing⟩ := getLast?_buildDeck_of_not hundefined
    obtain ⟨deck, hdeck⟩ := getLast?_eq_some_iff.mp hlast
    have hseats : m.state.players ≠ [] := by
      rw [← length_pos_iff, length_players_eq, ← length_map (·.1), hinv.seated.ids]
      omega
    obtain ⟨p, ps, hplayers⟩ := exists_cons_of_ne_nil hseats
    obtain ⟨a, b, hp⟩ := hhole p (hplayers ▸ mem_cons_self)
    have hfirst := h.1
    rw [hplayers, map_cons, hp, length_cons, proofHoleCards, map_cons, cons.injEq] at hfirst
    simp only [Option.some.injEq, cons.injEq, and_true] at hfirst
    rw [hplayers, flatMap_cons, hp, hdeck] at hcards
    have hac : a = c := by simpa using congrArg head? hcards
    refine hmissing (mem_of_getLast? ?_)
    rw [← hac]
    exact Option.join_eq_some_iff.mp hfirst.1.1.symm
  · intro h
    rw [map_buildDeck_of_forall_isSome h] at hholes hboard
    refine ⟨hholes, ?_⟩
    rw [proofBoard, ← hboard, map_append, take_left' (by simp)]

/-! ### A seed of zeros -/

def zeroSeed : List UInt8 := replicate 32 0

def zeroNonce : List UInt8 := replicate 16 0

/-- The SHA-256 digests of the seed with each of the counters 0 to 50, and with the nonce. -/
def zeroSeedDigests : List ℕ :=
  [0x4f59298d607f3143532ed694fb2f10454a684c1a29ef83e250bf5e234c6720b7,
    0x4e77cf06eac5cff3fad8d5e81138dd93eb1be514cd3abbd9e378efa909a7873b,
    0xbd938fc308110f3cf2cb391474753bf1cdb6a60efb29b21e28aac849ed7651ea,
    0x154a2797f271dcb9dddce221f5ec00865387ac25d721045987cc5cb693bef22e,
    0xfcd98a9df14fa47c12bb2a35dabb45170e0176de7fe1fd7abc43851c0a48aa8e,
    0x96f8601de3f7804e3e2f1f9306ab03fa3bd8300c0afde291413b672c63b3fdcd,
    0x6b6f6c63bbe3228f6623f2f063409ceb048216a50af6d042de11d8795ff876b5,
    0x6e9be5feac93f5e6d777bd377c4de8b3e004155036c76a4a41376838a7029cd1,
    0x9c1f2e910cb2b370007457b9801d334fdabd572f76c2f15bf5a5c5051dddfabb,
    0xdc7f402a0150081cedf8db00450b72d38d7d33457c1500792ca6c65d894770a6,
    0x7d26c50fcdc0b698c691229927c9bf0b6c02ef78bcb758a42aed8f600d5a81df,
    0x77ee45af426f1c7313728f9eb968844a86ab9c5fc1f45c5a00ff70667010e276,
    0x4b575dd0c1c6e963ec8bf72b7022645ee6c204ebc22872edda2964e240cd4e2f,
    0x4db1cb7158fe4c2c42a86992503bbf00f0ee59c0a432e2fbb8ba14c761a1a8e3,
    0x8c95a98e38a564df0ca86baddcb186f76127ead440952750d501948c6f86f8ce,
    0x0aa55e5fe3ba861c5b2f0317652ba781a3e784e922c22bf2df5d63dcddf32ce6,
    0xfdff0837794ac4760c0851d1260d34c6ad00e6880741e448ba4acbe5b287ecc0,
    0x43f5c34cf5feb968d564c2bb9899abc0ed2826a401de14c031f20b7b7649fb39,
    0xab937936cf92fe372329030cc12afd5964c0ac0321d28a61201fc3feaddf337d,
    0x473a73bb866d721e7ee19ec6e3ab1904c90cb2a38cb79369fc9922cf013f9d36,
    0x1d9be47a475c8d1c14ddc2ff9a258938d5e78c3519c6c53a81f38a394d7de49b,
    0x32825d26c7bed525fc743b7b11cc6de35c05313f591ee39655be48fe5aa1634f,
    0x4c3cc3197a83d1071badcbd2950a070c5cfe80cea7d16b28be6beee72cbdc451,
    0xca191464d1a815673cdadd270c77ed03f8878129ce31387897e70285d8084085,
    0x6a0dcf6397b285f806ee06d9e9166de56b7e5658319ea0e1fb433e29dd150d06,
    0x58f1e613ae07127ba97636e9110293fca9d5604a5eb607f339f045035ee883ac,
    0xc55a197af4efd4fd6956f27c5940abd9130ffdc987a8a49af97cd7d4dce6687d,
    0x9d4cdd89bb613fa947bf8fd382e80cdbe68d1e2017630e27b04464413bebd3fb,
    0x4df82a86d0992bef8fb7c7976b21870ddee4908b5303bf61070ec3828efe96a7,
    0x3343c62546cff77cef1d8b7b37fc8b53c01dd921bb0d024030227bf384fb8a6c,
    0x9e01efb48947c84deee71d7f6c9ea1631a771f6a2f81156dec10ccf3021c956f,
    0x4d893f92f339f26dbcfeb2d7ac991f4733e3f1353573ca2174bb877b7d74ac54,
    0x565f75af9406e97d00157936f3676d93faf9ababed9a448c32b217670f946e9f,
    0xcc4e8228022bcaaea398768c8673de7e9821e75fe90ad49e592896c87d114737,
    0xf9e954b8dc9d31a16865aec7b85ad57c693ff19353cb7d589f4396176f69a5e9,
    0xb8551b2c91b42c091e077e20ea98235948316aa11bfb4cd56723c8874a357ebb,
    0x35dfc650f1d30a78fd45386185fe227159b1d4c1a7114d6e05c9dc46fd174391,
    0x385d601a7754724d917dbbc2addcc964c29e5580e01264d4ce8ab8d40e3cbe10,
    0x97f1f09c528d5160e5f984abc9a1f4882f7e9873654e3838d75e236ad8e66783,
    0x75ad515622f9ab0bac6b3243fb609e50639843489541a812a201317e1d209a36,
    0x8c3b1031fb4ce92efc9cd924025b89f99d47945f76656b023aaf22b1445dcc58,
    0x59e734dc53c9985399ab5d43905e1731c1b7ef7ef2778b840fb5ab3951900da2,
    0xf8b22fc7663292a71a94c45e845d667ad86d0b6008132a647caf667ad71b3644,
    0xb97e731da3a00738040701d5c16c40c8e03da23ae667023ac676d7821a787df8,
    0xfadfccd080ff990670ea508844d55c4915aa91076e08afe2ced167d0dc76d123,
    0x741353013c98cb6326a111b9954177439323901f164a45e27c0c6fdcee6aa385,
    0x59ae2466a61d14f5b44fbd1d3047972d6cb10c207c9a2cdc0bd5ca96a8afe745,
    0xf89d00067a702566d96000046ccfbe500481bb95059af12adef071ba8774fa44,
    0x4d304830c04429585b9340700ddccf729613beeca7f47c948969586b2464a9d2,
    0x60dc12666ff6596e68d2bacc7f917a82e7bc283c21809250fa0cc4b3e90b8ad2,
    0xa04af3c9f3a1d5e8f20b0019316c2e0c020bdff6292b83fdde6dc530b926b1ae,
    0x17b0761f87b081d5cf10757ccc89f12be355c70e2e29df288b65b30710dcbcd1]

def digestBytes (digest : ℕ) : List UInt8 :=
  (range 32).map fun i => UInt8.ofNat (digest / 256 ^ (31 - i))

/-- SHA-256 on the inputs of the hand. -/
def zeroSeedHash (input : List UInt8) : List UInt8 :=
  let inputs := (range 51).map (fun counter => zeroSeed ++ encode counter) ++
    [zeroSeed ++ zeroNonce]
  digestBytes (zeroSeedDigests.getD (inputs.idxOf input) 0)

/-- An input as a number, which is compared faster. -/
def inputNumber (input : List UInt8) : ℕ :=
  positional 256 1 (input.map (·.toNat))

lemma inputNumber_injective : Function.Injective inputNumber := by
  intro input input' h
  have hbytes : ∀ bytes : List UInt8, ∀ k ∈ bytes.map (·.toNat), k < 256 := by
    intro bytes k hk
    obtain ⟨byte, -, rfl⟩ := mem_map.mp hk
    exact byte.toNat_lt
  have hmap := positional_one_injective (by decide) (hbytes input) (hbytes input') h
  exact map_injective_iff.mpr (fun _ _ => UInt8.toNat_inj.mp) hmap

lemma idxOf_map {α β : Type} [BEq α] [LawfulBEq α] [BEq β] [LawfulBEq β] {f : α → β}
    (hf : Function.Injective f) (xs : List α) (x : α) : (xs.map f).idxOf (f x) = xs.idxOf x := by
  induction xs with
  | nil => rfl
  | cons y ys ih =>
    have hbeq : (f y == f x) = (y == x) := by
      rw [Bool.eq_iff_iff, beq_iff_eq, beq_iff_eq]
      exact hf.eq_iff
    rw [map_cons, idxOf_cons, idxOf_cons, ih, hbeq]

lemma zeroSeedHash_eq :
    zeroSeedHash = fun input =>
      let inputs := (range 51).map (fun counter => zeroSeed ++ encode counter) ++
        [zeroSeed ++ zeroNonce]
      digestBytes (zeroSeedDigests.getD ((inputs.map inputNumber).idxOf (inputNumber input)) 0) := by
  funext input
  dsimp only
  rw [idxOf_map inputNumber_injective]
  rfl

def zeroRng : HandRNG :=
  .create zeroSeedHash zeroSeed zeroNonce

/-- A hand for two, with no bets after the blinds. -/
def zeroSeedHand : HandStateMachine :=
  callAll (zeroRng.shuffle zeroSeedHash)
    ([.postBlind "p1" 1, .postBlind "p2" 1, .next, .next, .next, .next, .next, .next, .next,
      .next].map .applyAction) (HandStateMachine.initial ["p1", "p2"] 100)

lemma reachable_zeroSeedHand :
    ((machineCalls ["p1", "p2"] 100).restrict
      fun _ l => l.1 = zeroRng.shuffle zeroSeedHash).Reachable zeroSeedHand :=
  reachable_callAll_restrict _ _ _ _ _ fun _ _ _ => rfl

/-- The hand is complete, and the proof does not have its cards. -/
lemma zeroSeedHand_complete :
    zeroSeedHand.state.phase = .settle ∧ zeroSeedHand.state.communityCards.length = 5 ∧
      ¬ Reproduces (zeroRng.reveal zeroSeedHash).deck zeroSeedHand.state := by
  rw [zeroSeedHand, zeroRng, zeroSeedHash_eq]
  decide +kernel

/-- The first draw of the seed is below 128, but a later one is not. -/
theorem proof_reproduces_deal_iff_zeroSeed :
    ¬ Reproduces (zeroRng.reveal zeroSeedHash).deck zeroSeedHand.state := by
  rw [proof_reproduces_deal_iff (by decide) (by decide) reachable_zeroSeedHand
    (Or.inr (Or.inr (Or.inr zeroSeedHand_complete.1)))]
  decide +kernel

/-- The proof of the hand does not have the cards that were dealt. -/
theorem proof_differs_from_deal :
    ¬ ∀ (sha256 : List UInt8 → List UInt8) (rng : HandRNG) (ids : List PlayerId)
      (startingStack : ℕ) (m : HandStateMachine), 2 ≤ ids.length → ids.length ≤ 23 →
      ((machineCalls ids startingStack).restrict
        fun _ l => l.1 = rng.shuffle sha256).Reachable m →
      m.state.phase = .settle → m.state.communityCards.length = 5 →
      Reproduces (rng.reveal sha256).deck m.state := by
  intro h
  exact zeroSeedHand_complete.2.2 (h zeroSeedHash zeroRng _ _ _ (by decide) (by decide)
    reachable_zeroSeedHand zeroSeedHand_complete.1 zeroSeedHand_complete.2.1)

end Pokerhub
