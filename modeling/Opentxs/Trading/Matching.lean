import Opentxs.Trading.Book

/-! What holds of every order book, and what the turns of the matching loop keep. -/

namespace Opentxs.Trading
open Library Spend

variable {system next : System} {checks : Checks} {number first other : TransactionNum} {offer otherOffer : Offer}
  {trade otherTrade : Trade}

/-- Each offer on the market suits it and is on the list of its side, at most once. -/
structure Sound (system : System) : Prop where
  admits : ∀ number offer, system.market.offers number = some offer → system.market.Admits offer ∧ 0 ≤ offer.amountAvailable
  bids : ∀ entry ∈ system.market.bids, ∃ offer, system.market.offers entry.2 = some offer ∧ offer.selling = false
  asks : ∀ entry ∈ system.market.asks, ∃ offer, system.market.offers entry.2 = some offer ∧ offer.selling = true
  bidsOnce : (system.market.bids.map (·.2)).Nodup
  asksOnce : (system.market.asks.map (·.2)).Nodup

theorem Sound.fresh (fresh : system.Fresh) : Sound system := by
  obtain ⟨bids, asks, offers, _⟩ := fresh
  constructor
  · intro number offer found
    cases (offers number).symm.trans found
  · rw [bids]
    exact fun _ member => absurd member List.not_mem_nil
  · rw [asks]
    exact fun _ member => absurd member List.not_mem_nil
  · rw [bids]
    exact List.nodup_nil
  · rw [asks]
    exact List.nodup_nil

/-! ## Offers come and go -/

theorem mem_insertBid (entry item : Entry) (bids : List Entry) : item ∈ Market.insertBid entry bids ↔ item = entry ∨ item ∈ bids := by
  unfold Market.insertBid
  rw [List.mem_append, List.mem_cons, or_left_comm, ← List.mem_append, List.takeWhile_append_dropWhile]

theorem mem_insertAsk (entry item : Entry) (asks : List Entry) : item ∈ Market.insertAsk entry asks ↔ item = entry ∨ item ∈ asks := by
  unfold Market.insertAsk
  rw [List.mem_append, List.mem_cons, or_left_comm, ← List.mem_append, List.takeWhile_append_dropWhile]

theorem insertBid_perm (entry : Entry) (bids : List Entry) : (Market.insertBid entry bids).Perm (entry :: bids) := by
  have split : (Market.insertBid entry bids).Perm (entry :: (bids.takeWhile (·.1 < entry.1) ++ bids.dropWhile (·.1 < entry.1))) :=
    List.perm_middle
  rwa [List.takeWhile_append_dropWhile] at split

theorem insertAsk_perm (entry : Entry) (asks : List Entry) : (Market.insertAsk entry asks).Perm (entry :: asks) := by
  have split : (Market.insertAsk entry asks).Perm (entry :: (asks.takeWhile (·.1 ≤ entry.1) ++ asks.dropWhile (·.1 ≤ entry.1))) :=
    List.perm_middle
  rwa [List.takeWhile_append_dropWhile] at split

theorem Sound.addOffer {date : Time} {pays : Option Trade} (sound : Sound system) (entered : system.addOffer offer pays date = some next) :
    Sound next := by
  obtain ⟨market, added, rfl⟩ := Option.map_eq_some_iff.mp entered
  obtain ⟨valid, added⟩ := Option.ite_none_left_eq_some.mp added
  obtain ⟨absent, added⟩ := Option.ite_none_left_eq_some.mp added
  have valid : system.market.validateOfferForMarket offer = true := by simpa using valid
  obtain ⟨admits, enough⟩ := Market.admits_of_validate valid
  have absent : system.market.offers offer.transactionNum = none := Option.not_isSome_iff_eq_none.mp absent
  have available : 0 ≤ offer.amountAvailable := (Amount.unit_pos.le.trans offer.minimumIncrement_least).trans enough
  have others : ∀ entry : Entry, ∀ found, system.market.offers entry.2 = some found →
      (if entry.2 = offer.transactionNum then some { offer with dateAddedToMarket := date } else system.market.offers entry.2) = some found := by
    intro entry found there
    refine (if_neg fun same => ?_).trans there
    rw [same, absent] at there
    cases there
  have news (entries : List Entry) (there : ∀ entry ∈ entries, ∃ found, system.market.offers entry.2 = some found ∧ found.selling = offer.selling) :
      offer.transactionNum ∉ entries.map (·.2) := by
    intro member
    obtain ⟨entry, listed, same⟩ := List.mem_map.mp member
    obtain ⟨found, there, _⟩ := there entry listed
    rw [same, absent] at there
    cases there
  have offers : ∀ number found, (if number = offer.transactionNum then some { offer with dateAddedToMarket := date }
      else system.market.offers number) = some found → system.market.Admits found ∧ 0 ≤ found.amountAvailable := by
    intro number found there
    by_cases same : number = offer.transactionNum
    · rw [if_pos same] at there
      obtain rfl := Option.some.inj there
      exact ⟨admits, available⟩
    · rw [if_neg same] at there
      exact sound.admits number found there
  cases side : offer.selling with
  | false =>
    have bid : offer.isBid = true := by rw [Offer.isBid, side]; rfl
    obtain rfl := (if_pos bid).symm.trans (Option.some.inj added)
    refine ⟨offers, fun entry member => ?_, fun entry member => ?_, ?_, sound.asksOnce⟩
    · rcases (mem_insertBid _ _ _).mp member with rfl | member
      · exact ⟨_, if_pos rfl, side⟩
      · obtain ⟨found, there, bought⟩ := sound.bids entry member
        exact ⟨found, others entry found there, bought⟩
    · obtain ⟨found, there, sold⟩ := sound.asks entry member
      exact ⟨found, others entry found there, sold⟩
    · apply ((insertBid_perm _ _).map (·.2)).nodup_iff.mpr
      exact List.nodup_cons.mpr ⟨news _ (by rw [side]; exact sound.bids), sound.bidsOnce⟩
  | true =>
    have ask : ¬ offer.isBid = true := by rw [Offer.isBid, side]; decide
    obtain rfl := (if_neg ask).symm.trans (Option.some.inj added)
    refine ⟨offers, fun entry member => ?_, fun entry member => ?_, sound.bidsOnce, ?_⟩
    · obtain ⟨found, there, bought⟩ := sound.bids entry member
      exact ⟨found, others entry found there, bought⟩
    · rcases (mem_insertAsk _ _ _).mp member with rfl | member
      · exact ⟨_, if_pos rfl, side⟩
      · obtain ⟨found, there, sold⟩ := sound.asks entry member
        exact ⟨found, others entry found there, sold⟩
    · apply ((insertAsk_perm _ _).map (·.2)).nodup_iff.mpr
      exact List.nodup_cons.mpr ⟨news _ (by rw [side]; exact sound.asks), sound.asksOnce⟩

/-- An entry that is on the list once is not there once it is taken away. -/
theorem eraseP_other {entries : List Entry} (once : (entries.map (·.2)).Nodup) {entry : Entry}
    (member : entry ∈ entries.eraseP fun entry => entry.2 = number) : entry ∈ entries ∧ entry.2 ≠ number := by
  refine ⟨List.mem_of_mem_eraseP member, fun same => ?_⟩
  induction entries with
  | nil => cases member
  | cons head rest ih =>
    obtain ⟨apart, rest_once⟩ := List.nodup_cons.mp once
    by_cases here : head.2 = number
    · rw [List.eraseP_cons_of_pos (by simpa using here)] at member
      have again : entry.2 ∈ rest.map (·.2) := List.mem_map_of_mem member
      rw [same, ← here] at again
      exact apart again
    · rw [List.eraseP_cons_of_neg (by simpa using here)] at member
      rcases List.mem_cons.mp member with rfl | member
      · exact here same
      · exact ih rest_once member

theorem Sound.removeOffer (sound : Sound system) (left : system.removeOffer number = some next) : Sound next := by
  obtain ⟨market, removed, rfl⟩ := Option.map_eq_some_iff.mp left
  obtain ⟨offer, found, taken⟩ := Option.map_eq_some_iff.mp removed
  have offers : ∀ other found, (if other = number then none else system.market.offers other) = some found →
      system.market.offers other = some found := fun other found there => (Option.ite_none_left_eq_some.mp there).2
  have kept : ∀ other found, other ≠ number → system.market.offers other = some found →
      (if other = number then none else system.market.offers other) = some found :=
    fun other found different there => (if_neg different).trans there
  have apart : ∀ entry : Entry, ∀ other, system.market.offers entry.2 = some other → other.selling ≠ offer.selling → entry.2 ≠ number := by
    rintro entry other there different same
    rw [same, found] at there
    exact different (congrArg Offer.selling (Option.some.inj there)).symm
  cases side : offer.selling with
  | false =>
    have bid : offer.isBid = true := by rw [Offer.isBid, side]; rfl
    obtain rfl := (if_pos bid).symm.trans taken
    refine ⟨fun other found there => sound.admits other found (offers other found there), fun entry member => ?_, fun entry member => ?_, ?_,
      sound.asksOnce⟩
    · obtain ⟨member, different⟩ := eraseP_other sound.bidsOnce member
      obtain ⟨bid, there, bought⟩ := sound.bids entry member
      exact ⟨bid, kept _ _ different there, bought⟩
    · obtain ⟨ask, there, sold⟩ := sound.asks entry member
      exact ⟨ask, kept _ _ (apart entry ask there (by rw [sold, side]; decide)) there, sold⟩
    · exact sound.bidsOnce.sublist (List.eraseP_sublist.map _)
  | true =>
    have ask : ¬ offer.isBid = true := by rw [Offer.isBid, side]; decide
    obtain rfl := (if_neg ask).symm.trans taken
    refine ⟨fun other found there => sound.admits other found (offers other found there), fun entry member => ?_, fun entry member => ?_,
      sound.bidsOnce, ?_⟩
    · obtain ⟨bid, there, bought⟩ := sound.bids entry member
      exact ⟨bid, kept _ _ (apart entry bid there (by rw [bought, side]; decide)) there, bought⟩
    · obtain ⟨member, different⟩ := eraseP_other sound.asksOnce member
      obtain ⟨ask, there, sold⟩ := sound.asks entry member
      exact ⟨ask, kept _ _ different there, sold⟩
    · exact sound.asksOnce.sublist (List.eraseP_sublist.map _)

/-! ## Trades -/

theorem incrementFinishedSoFar_zero (offer : Offer) : offer.incrementFinishedSoFar 0 = offer := by
  show { offer with finishedSoFar := offer.finishedSoFar + 0 } = offer
  rw [Int.add_zero]

theorem incrementFinishedSoFar_add (offer : Offer) (amount more : Amount) :
    (offer.incrementFinishedSoFar amount).incrementFinishedSoFar more = offer.incrementFinishedSoFar (amount + more) := by
  show { offer with finishedSoFar := offer.finishedSoFar + amount + more } = { offer with finishedSoFar := offer.finishedSoFar + (amount + more) }
  rw [Int.add_assoc]

/-- The offers are the same ones, and some of them are further. No offer gives more than it has. -/
structure Grows (system next : System) : Prop where
  market : next.market = { system.market with offers := next.market.offers, lastSalePrice := next.market.lastSalePrice }
  offers : ∀ number, ∃ amount, next.market.offers number = (system.market.offers number).map (·.incrementFinishedSoFar amount) ∧
    ∀ offer, system.market.offers number = some offer → 0 ≤ offer.amountAvailable → amount ≤ offer.amountAvailable

theorem Grows.refl (system : System) : Grows system system := by
  refine ⟨rfl, fun number => ⟨0, ?_, fun _ _ available => available⟩⟩
  cases system.market.offers number with
  | none => rfl
  | some offer => exact congrArg some (incrementFinishedSoFar_zero offer).symm

theorem Grows.trans {later : System} (first : Grows system next) (second : Grows next later) : Grows system later := by
  constructor
  · rw [second.market, first.market]
  · intro number
    obtain ⟨amount, moved, within⟩ := first.offers number
    obtain ⟨more, again, enough⟩ := second.offers number
    refine ⟨amount + more, ?_, fun offer found available => ?_⟩
    · rw [again, moved, Option.map_map]
      exact congrArg (fun change => (system.market.offers number).map change) (funext fun offer => incrementFinishedSoFar_add offer amount more)
    · rw [found] at moved
      have first := within offer found available
      have left : (offer.incrementFinishedSoFar amount).amountAvailable = offer.amountAvailable - amount := by
        show offer.totalAssetsOffer - (offer.finishedSoFar + amount) = offer.totalAssetsOffer - offer.finishedSoFar - amount
        lia
      have second := enough _ moved (by rw [left]; lia)
      rw [left] at second
      lia

theorem Grows.of_market (same : next.market = system.market) : Grows system next := by
  obtain ⟨_, offers⟩ := Grows.refl system
  refine ⟨by rw [same], ?_⟩
  rw [same]
  exact offers

theorem Grows.sound (grows : Grows system next) (sound : Sound system) : Sound next := by
  have moved : ∀ number offer, system.market.offers number = some offer →
      ∃ later, next.market.offers number = some later ∧ later.selling = offer.selling := by
    intro number offer found
    obtain ⟨amount, later, _⟩ := grows.offers number
    rw [found] at later
    exact ⟨_, later, rfl⟩
  have market := grows.market
  constructor
  · intro number offer found
    obtain ⟨amount, later, within⟩ := grows.offers number
    rw [found] at later
    obtain ⟨before, there, rfl⟩ := Option.map_eq_some_iff.mp later.symm
    obtain ⟨admits, available⟩ := sound.admits number before there
    refine ⟨?_, ?_⟩
    · rw [market]
      exact admits
    · have enough := within before there available
      show 0 ≤ before.totalAssetsOffer - (before.finishedSoFar + amount)
      unfold Offer.amountAvailable at enough
      lia
  · rw [show next.market.bids = system.market.bids by rw [market]]
    intro entry member
    obtain ⟨offer, found, bought⟩ := sound.bids entry member
    obtain ⟨later, there, side⟩ := moved _ _ found
    exact ⟨later, there, side.trans bought⟩
  · rw [show next.market.asks = system.market.asks by rw [market]]
    intro entry member
    obtain ⟨offer, found, sold⟩ := sound.asks entry member
    obtain ⟨later, there, side⟩ := moved _ _ found
    exact ⟨later, there, side.trans sold⟩
  · rw [show next.market.bids = system.market.bids by rw [market]]
    exact sound.bidsOnce
  · rw [show next.market.asks = system.market.asks by rw [market]]
    exact sound.asksOnce

/-- What is traded in all rounds is there. -/
theorem Rounds.Ends.within {legs : Legs} {increment price available otherAvailable : Amount} {count : Nat} {rounds : Rounds}
    (ends : rounds.Ends legs increment price available otherAvailable count) (some : 0 < count) :
    count * increment ≤ available ∧ count * increment ≤ otherAvailable := by
  obtain ⟨before, rfl⟩ := Nat.exists_eq_succ_of_ne_zero some.ne'
  obtain ⟨enters, _⟩ := ends.made before (Nat.lt_succ_self before)
  rw [Nat.succ_eq_add_one, Rounds.succ_mul]
  have first := enters.1
  have second := enters.2.1
  exact ⟨by lia, by lia⟩

theorem Rounds.Ends.some_of_success {legs : Legs} {increment price available otherAvailable : Amount} {count : Nat} {rounds : Rounds}
    (ends : rounds.Ends legs increment price available otherAvailable count) (success : rounds.success = true) : 0 < count := by
  rcases ends.last with ⟨_, same⟩ | ⟨_, _, failed⟩
  · exact of_decide_eq_true (same.symm.trans success)
  · cases failed.symm.trans success

theorem System.Meets.exchange_grows (meets : system.Meets first other offer otherOffer trade otherTrade)
    (done : system.exchange checks first other = some next) : Grows system next := by
  rcases meets.exchange_cases checks with ⟨refusal, _, refused⟩ | ⟨accounts, increment, price, count, rounds, _, _, _, ends, ran⟩
  · obtain rfl := Option.some.inj (refused.symm.trans done)
    exact Grows.of_market (System.refuse_keeps meets refusal).1
  · obtain rfl := Option.some.inj (ran.symm.trans done)
    cases success : rounds.success with
    | false => exact Grows.of_market (System.conclude_market.trans (if_neg (by rw [success]; decide)))
    | true =>
      obtain ⟨within, otherWithin⟩ := ends.within (ends.some_of_success success)
      have committed : (system.conclude first other offer otherOffer trade otherTrade increment price rounds).market =
          (system.commit first other offer otherOffer trade otherTrade rounds).market :=
        System.conclude_market.trans (if_pos success)
      constructor
      · rw [committed]
        rfl
      · intro number
        rw [committed]
        show ∃ amount, (if number = other then some (otherOffer.incrementFinishedSoFar rounds.otherOfferFinished)
            else if number = first then some (offer.incrementFinishedSoFar rounds.offerFinished)
            else system.market.offers number) = _ ∧ _
        by_cases second : number = other
        · subst second
          refine ⟨rounds.otherOfferFinished, by rw [if_pos rfl, meets.otherFound]; rfl, fun found there _ => ?_⟩
          obtain rfl := Option.some.inj (meets.otherFound.symm.trans there)
          rw [ends.counts.otherOfferFinished]
          exact otherWithin
        · rw [if_neg second]
          by_cases own : number = first
          · subst own
            refine ⟨rounds.offerFinished, by rw [if_pos rfl, meets.found]; rfl, fun found there _ => ?_⟩
            obtain rfl := Option.some.inj (meets.found.symm.trans there)
            rw [ends.counts.offerFinished]
            exact within
          · rw [if_neg own]
            exact (Grows.refl system).offers number

/-! ## Turns -/

/-- An offer still has enough for a trade of its own. -/
def Ready (system : System) (number : TransactionNum) : Prop :=
  ∀ offer, system.market.offers number = some offer → offer.minimumIncrement ≤ offer.amountAvailable

/-- A turn leaves all as it is or makes one exchange, for which the prices and the sizes suit. -/
theorem turn_cases {stays : Option Bool} (turned : system.turn checks number other = some (next, stays)) :
    (next = system ∨ ∃ offer otherOffer, system.market.offers number = some offer ∧ system.market.offers other = some otherOffer ∧
      otherOffer.priceLimit ≠ 0 ∧ System.crosses offer otherOffer = true ∧ otherOffer.minimumIncrement ≤ offer.amountAvailable ∧
      offer.minimumIncrement ≤ otherOffer.amountAvailable ∧ system.exchange checks number other = some next) ∧
    (stays = none → Ready system number → Ready next number) := by
  obtain ⟨offer, found, turned⟩ := Option.bind_eq_some_iff.mp turned
  obtain ⟨against, there, turned⟩ := Option.bind_eq_some_iff.mp turned
  by_cases unpriced : against.isMarketOrder = true
  · rw [if_pos unpriced] at turned
    split at turned
    · obtain ⟨rfl, rfl⟩ := Prod.mk.inj (Option.some.inj turned)
      exact ⟨.inl rfl, fun last => (nomatch last)⟩
    · obtain ⟨rfl, rfl⟩ := Prod.mk.inj (Option.some.inj turned)
      exact ⟨.inl rfl, fun _ ready => ready⟩
  rw [if_neg unpriced] at turned
  by_cases crosses : System.crosses offer against = true
  · rw [if_pos crosses] at turned
    obtain ⟨after, exchanged, turned⟩ := Option.bind_eq_some_iff.mp turned
    obtain ⟨later, now, turned⟩ := Option.bind_eq_some_iff.mp turned
    obtain ⟨trade, _, turned⟩ := Option.bind_eq_some_iff.mp turned
    have same : after = next := by
      split at turned
      · exact (Prod.mk.inj (Option.some.inj turned)).1
      · exact (Prod.mk.inj (Option.some.inj turned)).1
    subst same
    constructor
    · unfold System.tryExchange at exchanged
      split at exchanged
      · rename_i sizes
        refine .inr ⟨offer, against, found, there, fun price => unpriced (decide_eq_true price), crosses, sizes.2.1, sizes.1, exchanged⟩
      · exact .inl (Option.some.inj exchanged).symm
    · rintro rfl _ offer held
      obtain rfl := Option.some.inj (now.symm.trans held)
      by_contra short
      rw [if_pos (.inr (lt_of_not_ge short))] at turned
      cases turned
  · rw [if_neg crosses] at turned
    obtain ⟨rfl, rfl⟩ := Prod.mk.inj (Option.some.inj turned)
    exact ⟨.inl rfl, fun last => (nomatch last)⟩

/-- Each exchange of the loop meets a condition in the state where it is made. -/
def Careful (may : System → TransactionNum → TransactionNum → Prop) (checks : TransactionNum → Checks) (number : TransactionNum) :
    List TransactionNum → System → Prop
  | [], _ => True
  | other :: rest, system =>
    may system number other ∧ ∀ next, system.turn (checks other) number other = some (next, none) → Careful may checks number rest next

/-- What the matching loop has made sure of when it begins an exchange. -/
structure Begins (system : System) (number other : TransactionNum) (offer otherOffer : Offer) (trade otherTrade : Trade) : Prop where
  meets : system.Meets number other offer otherOffer trade otherTrade
  priced : otherOffer.priceLimit ≠ 0
  crosses : System.crosses offer otherOffer = true
  ready : offer.minimumIncrement ≤ offer.amountAvailable

section

variable {may : System → TransactionNum → TransactionNum → Prop} {related : System → System → Prop} {calls : TransactionNum → Checks}

/-- What each exchange does, a turn does. -/
theorem turn_related {stays : Option Bool} (sound : Sound system) (found : system.market.offers number = some offer)
    (ready : Ready system number)
    (facing : ∃ otherOffer, system.market.offers other = some otherOffer ∧ otherOffer.selling ≠ offer.selling)
    (refl : related system system)
    (each : ∀ offer otherOffer trade otherTrade, Begins system number other offer otherOffer trade otherTrade →
      system.exchange checks number other = some next → related system next)
    (turned : system.turn checks number other = some (next, stays)) : related system next ∧ Grows system next := by
  rcases (turn_cases turned).1 with rfl | ⟨own, otherOffer, held, there, priced, crosses, enough, otherEnough, exchanged⟩
  · exact ⟨refl, Grows.refl _⟩
  · obtain rfl := Option.some.inj (found.symm.trans held)
    obtain ⟨against, same, sides⟩ := facing
    obtain rfl := Option.some.inj (there.symm.trans same)
    obtain ⟨_, _, opened⟩ := Option.bind_eq_some_iff.mp exchanged
    obtain ⟨_, _, opened⟩ := Option.bind_eq_some_iff.mp opened
    obtain ⟨trade, pays, opened⟩ := Option.bind_eq_some_iff.mp opened
    obtain ⟨otherTrade, otherPays, _⟩ := Option.bind_eq_some_iff.mp opened
    have meets : system.Meets number other offer otherOffer trade otherTrade :=
      ⟨found, there, pays, otherPays, sides.symm, (sound.admits _ _ found).1, (sound.admits _ _ there).1, enough, otherEnough⟩
    exact ⟨each _ _ _ _ ⟨meets, priced, crosses, ready offer found⟩ exchanged, meets.exchange_grows exchanged⟩

/-- What each exchange does, the loop does. -/
theorem turns_related (refl : ∀ system, related system system)
    (trans : ∀ first second third, related first second → related second third → related first third)
    (each : ∀ system next other offer otherOffer trade otherTrade, Sound system → may system number other →
      Begins system number other offer otherOffer trade otherTrade → system.exchange (calls other) number other = some next →
      related system next) (others : List TransactionNum) :
    ∀ system offer result, Sound system → system.market.offers number = some offer → Ready system number →
      (∀ other ∈ others, ∃ otherOffer, system.market.offers other = some otherOffer ∧ otherOffer.selling ≠ offer.selling) →
      Careful may calls number others system → System.turns calls number others system = some result →
      related system result.1 ∧ Grows system result.1 := by
  induction others with
  | nil =>
    intro system offer result _ found _ _ _ ended
    obtain ⟨_, _, rfl⟩ := Option.map_eq_some_iff.mp ended
    exact ⟨refl system, Grows.refl system⟩
  | cons other others ih =>
    intro system offer result sound found ready facing careful went
    obtain ⟨⟨next, stays⟩, turned, went⟩ := Option.bind_eq_some_iff.mp went
    obtain ⟨done, grows⟩ := turn_related sound found ready (facing other List.mem_cons_self) (refl system)
      (fun _ _ _ _ begins => each _ _ _ _ _ _ _ sound careful.1 begins) turned
    cases stays with
    | some stays =>
      obtain rfl := Option.some.inj went
      exact ⟨done, grows⟩
    | none =>
      obtain ⟨amount, later, _⟩ := grows.offers number
      rw [found] at later
      have rest : ∀ other ∈ others, ∃ otherOffer, next.market.offers other = some otherOffer ∧ otherOffer.selling ≠ offer.selling := by
        intro other member
        obtain ⟨otherOffer, there, sides⟩ := facing other (List.mem_cons_of_mem _ member)
        obtain ⟨more, moved, _⟩ := grows.offers other
        rw [there] at moved
        exact ⟨_, moved, sides⟩
      obtain ⟨onward, growing⟩ := ih next _ result (grows.sound sound) later ((turn_cases turned).2 rfl ready) rest (careful.2 next turned) went
      exact ⟨trans _ _ _ done onward, grows.trans growing⟩

/-- Whether each exchange of a call meets a condition. -/
def CarefulCall (may : System → TransactionNum → TransactionNum → Prop) (call : Call) (system : System) : Prop :=
  ∀ offer, system.market.offers call.number = some offer → Careful may call.checks call.number (system.market.opposite offer) system

theorem Sound.opposite (sound : Sound system) (offer : Offer) :
    ∀ other ∈ system.market.opposite offer, ∃ otherOffer, system.market.offers other = some otherOffer ∧ otherOffer.selling ≠ offer.selling := by
  intro other member
  unfold Market.opposite at member
  cases side : offer.selling with
  | true =>
    rw [Offer.isAsk, side, if_pos rfl] at member
    obtain ⟨entry, listed, rfl⟩ := List.mem_map.mp member
    obtain ⟨bid, there, bought⟩ := sound.bids entry (List.mem_reverse.mp listed)
    exact ⟨bid, there, by rw [bought]; decide⟩
  | false =>
    rw [Offer.isAsk, side, if_neg Bool.false_ne_true] at member
    obtain ⟨entry, listed, rfl⟩ := List.mem_map.mp member
    obtain ⟨ask, there, sold⟩ := sound.asks entry listed
    exact ⟨ask, there, by rw [sold]; decide⟩

variable (may related) in
/-- What each exchange does, a call does. -/
theorem processTrade_related {call : Call} (refl : ∀ system, related system system)
    (trans : ∀ first second third, related first second → related second third → related first third)
    (each : ∀ system next other offer otherOffer trade otherTrade, Sound system → may system call.number other →
      Begins system call.number other offer otherOffer trade otherTrade →
      system.exchange (call.checks other) call.number other = some next → related system next)
    (sound : Sound system) (careful : CarefulCall may call system) (stepped : step (.process call) system = some next) :
    related system next ∧ Grows system next := by
  obtain ⟨⟨_, stays⟩, processed, rfl⟩ := Option.map_eq_some_iff.mp stepped
  obtain ⟨offer, found, processed⟩ := Option.bind_eq_some_iff.mp processed
  have still {stays left : Bool} {after : System} (same : some (system, stays) = some (after, left)) :
      related system after ∧ Grows system after := by
    obtain ⟨rfl, _⟩ := Prod.mk.inj (Option.some.inj same)
    exact ⟨refl _, Grows.refl _⟩
  split at processed
  · exact still processed
  rename_i enough
  split at processed
  · exact still processed
  split at processed
  · exact still processed
  have ready : Ready system call.number := by
    intro own there
    obtain rfl := Option.some.inj (found.symm.trans there)
    exact le_of_not_gt enough
  exact turns_related refl trans each _ system offer _ sound found ready (sound.opposite offer) (careful offer found) processed

end

theorem careful_of_always {may : System → TransactionNum → TransactionNum → Prop} (always : ∀ system number other, may system number other)
    (checks : TransactionNum → Checks) (others : List TransactionNum) : ∀ system, Careful may checks number others system := by
  induction others with
  | nil => exact fun _ => trivial
  | cons other others ih => exact fun system => ⟨always system number other, fun next _ => ih next⟩

theorem Sound.process_grows {call : Call} (sound : Sound system) (stepped : step (.process call) system = some next) : Grows system next :=
  (processTrade_related (fun _ _ _ => True) (fun _ _ => True) (fun _ => trivial) (fun _ _ _ _ _ => trivial)
    (fun _ _ _ _ _ _ _ _ _ _ _ => trivial) sound (fun _ _ => careful_of_always (fun _ _ _ => trivial) _ _ _) stepped).2

/-- Every order book that a market can come to. -/
def Reached (system : System) : Prop := ∃ start, System.Fresh start ∧ machine.Run (fun _ _ => True) start system

theorem Reached.sound (reached : Reached system) : Sound system := by
  obtain ⟨start, fresh, run⟩ := reached
  apply run.keeps (Sound.fresh fresh)
  intro event before after sound _ stepped
  cases event with
  | add offer trade date => exact sound.addOffer stepped
  | remove number => exact sound.removeOffer stepped
  | process call => exact (sound.process_grows stepped).sound sound

end Opentxs.Trading
