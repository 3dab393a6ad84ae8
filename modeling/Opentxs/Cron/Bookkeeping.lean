import Opentxs.Cron.Items
import Opentxs.Library.Mirror

/-! What cron keeps through calls and restarts. The numbers last as long as there is one for each item
that leaves, and a restart is harmless when the file was written after the last receipt. -/

namespace Opentxs.Cron
open Library Trading Trading.Contracts

variable {refillAmount : Int32} {server before after : Server} {number : TransactionNumber} {entry : Date × CronItem} {deeds : List Deed}

/-! ## What is right -/

/-- The two containers hold the same items, none is removed twice or without a number, and no number
on a receipt is handed out again. -/
structure Right (server : Server) : Prop where
  same : Mirrors CronItem.transactionNum server.cron.cronItems (server.cron.cronItemsMulti.map Prod.snd)
  once : (server.removals.map Removal.transactionNum).Nodup
  numbered : ∀ removal ∈ server.removals, removal.finalReceipt ≠ 0
  fresh : server.handed.Pairwise fun earlier later => earlier.written → later.number ≠ earlier.number

def Deed.takes : Deed → Bool
  | .takeNumber _ => true
  | .saveCron _ => false

/-- A round comes to its end with a number left for each item that leaves. -/
def Lasts (refillAmount : Int32) (process : CronItem → Processing) : List (Date × CronItem) → Nat → Prop
  | [], _ => True
  | entry :: entries, count =>
    Int32.ofNat count ≤ refillAmount / 5 ∨
      if (process entry.2).stays then Lasts refillAmount process entries (count - (process entry.2).deeds.countP Deed.takes)
      else 0 < count - (process entry.2).deeds.countP Deed.takes ∧ Lasts refillAmount process entries
        (count - (process entry.2).deeds.countP Deed.takes - 1 - (process entry.2).leaving.deeds.countP Deed.takes)

instance decidableLasts (process : CronItem → Processing) (entries : List (Date × CronItem)) :
    ∀ count, Decidable (Lasts refillAmount process entries count) := by
  induction entries with
  | nil => exact fun _ => isTrue trivial
  | cons entry entries ih =>
    exact fun count => have rest := ih; instDecidableOr

/-- New numbers, a number for each item that leaves, and a file that is not behind. -/
def May (refillAmount : Int32) : Event → Server → Prop
  | .addTransactionNumber number, server => number ≠ 0 ∧ number ∉ server.issued
  | .addCronItem _ _ _, _ => True
  | .removeCronItem number _ _, server => server.cron.findItemOnMap number ≠ none → server.cron.listTransactionNumbers ≠ []
  | .processCronItems _ process _, server =>
    Lasts refillAmount process server.cron.cronItemsMulti server.cron.listTransactionNumbers.length
  | .restart _, server => server.unsavedReceipts = [] ∧ server.unsavedRemovals = []

instance decidableMay : ∀ event server, Decidable (May refillAmount event server)
  | .addTransactionNumber _, _ => instDecidableAnd
  | .addCronItem _ _ _, _ => isTrue trivial
  | .removeCronItem _ _ _, _ => inferInstanceAs (Decidable (_ → _))
  | .processCronItems _ process _, server => decidableLasts process server.cron.cronItemsMulti server.cron.listTransactionNumbers.length
  | .restart _, _ => instDecidableAnd

/-! ## The invariant -/

/-- The numbers on receipts. -/
def Server.written (server : Server) : List TransactionNumber := (server.handed.filter Handed.written).map Handed.number

def Server.removed (server : Server) : List TransactionNumber := server.removals.map Removal.transactionNum

/-- What may be handed out is on no receipt, and what the file still has of such numbers has not been saved. -/
structure Numbers (server : Server) : Prop where
  nonzero : ∀ number ∈ server.issued, number ≠ 0
  nodup : server.cron.listTransactionNumbers.Nodup
  unused : ∀ number ∈ server.cron.listTransactionNumbers, number ∈ server.issued ∧ number ∉ server.written
  fileNodup : server.file.transactionNumbers.Nodup
  fileUnused : ∀ number ∈ server.file.transactionNumbers,
    number ∈ server.issued ∧ (number ∈ server.written → number ∈ server.unsavedReceipts)
  known : ∀ number ∈ server.written, number ∈ server.issued
  fresh : server.handed.Pairwise fun earlier later => earlier.written → later.number ≠ earlier.number

/-- What is on cron was not removed, and what the file still has of removed items has not been saved. -/
structure Items (server : Server) : Prop where
  same : Mirrors CronItem.transactionNum server.cron.cronItems (server.cron.cronItemsMulti.map Prod.snd)
  present : ∀ item ∈ server.cron.cronItemsMulti.map Prod.snd,
    item.transactionNum ∈ server.cronReceipts ∧ item.transactionNum ∉ server.removed
  fileNodup : (server.file.cronItems.map Prod.snd).Nodup
  filed : ∀ number ∈ server.file.cronItems.map Prod.snd,
    number ∈ server.cronReceipts ∧ (number ∈ server.removed → number ∈ server.unsavedRemovals)
  known : ∀ number ∈ server.removed, number ∈ server.cronReceipts
  once : server.removed.Nodup
  numbered : ∀ removal ∈ server.removals, removal.finalReceipt ≠ 0

structure Kept (server : Server) : Prop where
  numbers : Numbers server
  items : Items server

theorem Kept.right (kept : Kept server) : Right server :=
  ⟨kept.items.same, kept.items.once, kept.items.numbered, kept.numbers.fresh⟩

theorem kept_start : Kept {} :=
  ⟨⟨List.forall_mem_nil _, List.nodup_nil, List.forall_mem_nil _, List.nodup_nil, List.forall_mem_nil _, List.forall_mem_nil _, .nil⟩,
    ⟨.empty, List.forall_mem_nil _, List.nodup_nil, List.forall_mem_nil _, List.forall_mem_nil _, List.nodup_nil, List.forall_mem_nil _⟩⟩

/-! ## Numbers and saving -/

/-- What no deed of an item changes. -/
structure SameItems (before after : Server) : Prop where
  cronItems : after.cron.cronItems = before.cron.cronItems
  cronItemsMulti : after.cron.cronItemsMulti = before.cron.cronItemsMulti
  cronReceipts : after.cronReceipts = before.cronReceipts
  removals : after.removals = before.removals

theorem SameItems.refl (server : Server) : SameItems server server := ⟨rfl, rfl, rfl, rfl⟩

theorem SameItems.trans {last : Server} (first : SameItems before after) (second : SameItems after last) : SameItems before last :=
  ⟨second.1.trans first.1, second.2.trans first.2, second.3.trans first.3, second.4.trans first.4⟩

/-- The items do not know about numbers. -/
theorem Items.of_same (items : Items before) (same : SameItems before after) (file : after.file = before.file)
    (unsaved : after.unsavedRemovals = before.unsavedRemovals) : Items after := by
  have removed : after.removed = before.removed := congrArg (List.map Removal.transactionNum) same.removals
  obtain ⟨mirrors, present, fileNodup, filed, known, once, numbered⟩ := items
  refine ⟨?_, ?_, ?_, ?_, ?_, ?_, ?_⟩
  · rw [same.cronItems, same.cronItemsMulti]
    exact mirrors
  · rw [same.cronItemsMulti, same.cronReceipts, removed]
    exact present
  · rw [file]
    exact fileNodup
  · rw [file, same.cronReceipts, removed, unsaved]
    exact filed
  · rw [same.cronReceipts, removed]
    exact known
  · rw [removed]
    exact once
  · rw [same.removals]
    exact numbered

theorem mem_written : number ∈ server.written ↔ ⟨number, true⟩ ∈ server.handed := by
  unfold Server.written
  constructor
  · intro member
    obtain ⟨⟨number, written⟩, inside, rfl⟩ := List.mem_map.mp member
    obtain ⟨inside, rfl⟩ := List.mem_filter.mp inside
    exact inside
  · exact fun inside => List.mem_map.mpr ⟨⟨number, true⟩, List.mem_filter.mpr ⟨inside, rfl⟩, rfl⟩

/-- A number that comes after what was written on receipts and is not among it. -/
theorem fresh_append {flag : Bool} (fresh : server.handed.Pairwise fun earlier later => earlier.written → later.number ≠ earlier.number)
    (new : number ∉ server.written) :
    (server.handed ++ [Handed.mk number flag]).Pairwise fun earlier later => earlier.written → later.number ≠ earlier.number := by
  refine List.pairwise_append.mpr ⟨fresh, List.pairwise_singleton _ _, fun earlier inside later single written same => ?_⟩
  obtain rfl := List.mem_singleton.mp single
  obtain rfl : number = earlier.number := same
  refine new (mem_written.mpr ?_)
  rw [← written]
  exact inside

/-- What handing out a number does, whether there is one or not. -/
theorem Numbers.handed {numbers : List TransactionNumber} {flag : Bool} (kept : Numbers server) (fewer : numbers.Sublist server.cron.listTransactionNumbers)
    (gone : number ∉ numbers) (new : number ∉ server.written) (issued : flag = true → number ∈ server.issued) :
    Numbers { server with
      cron := { server.cron with listTransactionNumbers := numbers }
      handed := server.handed ++ [⟨number, flag⟩]
      unsavedReceipts := if flag then server.unsavedReceipts ++ [number] else server.unsavedReceipts } := by
  obtain ⟨nonzero, nodup, unused, fileNodup, fileUnused, known, fresh⟩ := kept
  have written (other : TransactionNumber) (inside : ⟨other, true⟩ ∈ server.handed ++ [⟨number, flag⟩]) :
      other ∈ server.written ∨ other = number ∧ flag = true := by
    rcases List.mem_append.mp inside with before | now
    · exact .inl (mem_written.mpr before)
    · cases List.mem_singleton.mp now
      exact .inr ⟨rfl, rfl⟩
  refine ⟨nonzero, nodup.sublist fewer, fun other inside => ?_, fileNodup, fun other inside => ?_, fun other inside => ?_,
    fresh_append fresh new⟩
  · obtain ⟨issued, unwritten⟩ := unused other (fewer.subset inside)
    refine ⟨issued, fun now => ?_⟩
    rcases written other (mem_written.mp now) with before | ⟨rfl, _⟩
    · exact unwritten before
    · exact gone inside
  · obtain ⟨issued, unsaved⟩ := fileUnused other inside
    refine ⟨issued, fun now => ?_⟩
    rcases written other (mem_written.mp now) with before | ⟨rfl, rfl⟩
    · dsimp only
      split
      · exact List.mem_append_left _ (unsaved before)
      · exact unsaved before
    · exact List.mem_append_right _ (List.mem_singleton_self _)
  · rcases written other (mem_written.mp inside) with before | ⟨rfl, on⟩
    · exact known other before
    · exact issued on

/-- A zero is written on no receipt. -/
theorem zero_unwritten (kept : Numbers server) : 0 ∉ server.written := fun inside => kept.nonzero 0 (kept.known 0 inside) rfl

theorem getNextTransactionNumber_eq (cron : OTCron) : cron.getNextTransactionNumber =
    (cron.listTransactionNumbers.headD 0, { cron with listTransactionNumbers := cron.listTransactionNumbers.tail }) := by
  unfold OTCron.getNextTransactionNumber
  split
  · next empty =>
    cases cron
    obtain rfl : _ = [] := empty
    rfl
  · next number numbers next =>
    rw [next]
    rfl

theorem Numbers.handOut (kept : Numbers server) (written : Bool) : Numbers (server.handOut written).2 := by
  unfold Server.handOut
  rw [getNextTransactionNumber_eq]
  refine kept.handed (List.tail_sublist _) ?_ ?_ fun on => ?_
  all_goals cases list : server.cron.listTransactionNumbers with
    | nil => ?_
    | cons number numbers => ?_
  · exact List.not_mem_nil
  · exact (List.nodup_cons.mp (list ▸ kept.nodup)).1
  · exact zero_unwritten kept
  · exact (kept.unused number (list ▸ List.mem_cons_self)).2
  · rw [list] at on
    exact absurd rfl (of_decide_eq_true on).2
  · exact (kept.unused number (list ▸ List.mem_cons_self)).1

theorem handOut_sameItems (server : Server) (written : Bool) : SameItems server (server.handOut written).2 := by
  unfold Server.handOut
  rw [getNextTransactionNumber_eq]
  exact ⟨rfl, rfl, rfl, rfl⟩

theorem handOut_length (server : Server) (written : Bool) :
    (server.handOut written).2.cron.listTransactionNumbers.length = server.cron.listTransactionNumbers.length - 1 := by
  unfold Server.handOut
  rw [getNextTransactionNumber_eq]
  exact List.length_tail

theorem Kept.handOut (kept : Kept server) (written : Bool) : Kept (server.handOut written).2 :=
  ⟨kept.numbers.handOut written, kept.items.of_same (handOut_sameItems server written) rfl rfl⟩

/-- Afterwards the file has nothing that cron has not. -/
theorem Kept.saveCron (kept : Kept server) (saves : Bool) : Kept (server.saveCron saves) := by
  unfold Server.saveCron
  split
  · obtain ⟨⟨nonzero, nodup, unused, _, _, known, fresh⟩, ⟨mirrors, present, _, _, removed, once, numbered⟩⟩ := kept
    have numbers : server.cron.updateContents.cronItems.map Prod.snd = (server.cron.cronItemsMulti.map Prod.snd).map CronItem.transactionNum := by
      unfold OTCron.updateContents
      rw [List.map_map, List.map_map]
      rfl
    refine ⟨⟨nonzero, nodup, unused, nodup, ?_, known, fresh⟩, ⟨mirrors, present, ?_, ?_, removed, once, numbered⟩⟩
    · exact fun number inside => ⟨(unused number inside).1, fun written => absurd written (unused number inside).2⟩
    · rw [numbers]
      exact mirrors.nodup
    · rw [numbers]
      intro number inside
      obtain ⟨item, member, rfl⟩ := List.mem_map.mp inside
      exact ⟨(present item member).1, fun gone => absurd gone (present item member).2⟩
  · exact kept

theorem saveCron_sameItems (server : Server) (saves : Bool) : SameItems server (server.saveCron saves) := by
  unfold Server.saveCron
  split <;> exact ⟨rfl, rfl, rfl, rfl⟩

theorem saveCron_list (server : Server) (saves : Bool) :
    (server.saveCron saves).cron.listTransactionNumbers = server.cron.listTransactionNumbers := by
  unfold Server.saveCron
  split <;> rfl

/-! ## What an item does -/

theorem perform_kept (kept : Kept server) (deed : Deed) : Kept (server.perform deed) := by
  cases deed with
  | takeNumber written => exact kept.handOut written
  | saveCron saves => exact kept.saveCron saves

theorem perform_sameItems (server : Server) (deed : Deed) : SameItems server (server.perform deed) := by
  cases deed with
  | takeNumber written => exact handOut_sameItems server written
  | saveCron saves => exact saveCron_sameItems server saves

theorem perform_length (server : Server) (deed : Deed) : (server.perform deed).cron.listTransactionNumbers.length =
    server.cron.listTransactionNumbers.length - [deed].countP Deed.takes := by
  cases deed with
  | takeNumber written => exact handOut_length server written
  | saveCron saves => exact congrArg List.length (saveCron_list server saves)

theorem Kept.performAll (deeds : List Deed) : ∀ {server : Server}, Kept server → Kept (server.performAll deeds) := by
  induction deeds with
  | nil => exact fun kept => kept
  | cons deed deeds ih => exact fun kept => ih (perform_kept kept deed)

theorem performAll_sameItems (deeds : List Deed) : ∀ server : Server, SameItems server (server.performAll deeds) := by
  induction deeds with
  | nil => exact SameItems.refl
  | cons deed deeds ih => exact fun server => (perform_sameItems server deed).trans (ih _)

theorem performAll_length (deeds : List Deed) : ∀ server : Server, (server.performAll deeds).cron.listTransactionNumbers.length =
    server.cron.listTransactionNumbers.length - deeds.countP Deed.takes := by
  induction deeds with
  | nil => exact fun _ => rfl
  | cons deed deeds ih =>
    intro server
    have split : ([deed] ++ deeds).countP Deed.takes = [deed].countP Deed.takes + deeds.countP Deed.takes := List.countP_append
    show ((server.perform deed).performAll deeds).cron.listTransactionNumbers.length = _
    rw [ih, perform_length, Nat.sub_sub, ← split]
    rfl

/-- An item that leaves has done all its deeds, and its removal is recorded. -/
theorem hookRemovalFromCron_eq (kept : Kept server) (item : CronItem) (leaving : Leaving) (some : server.cron.listTransactionNumbers ≠ []) :
    ∃ number after, number ≠ 0 ∧ Kept after ∧ SameItems server after ∧
      after.cron.listTransactionNumbers.length = server.cron.listTransactionNumbers.length - 1 - leaving.deeds.countP Deed.takes ∧
      server.hookRemovalFromCron item leaving = { after with
        removals := after.removals ++ [⟨item.transactionNum, number⟩]
        unsavedRemovals := after.unsavedRemovals ++ [item.transactionNum] } := by
  refine ⟨(server.handOut leaving.written).1, (server.handOut leaving.written).2.performAll leaving.deeds, ?_,
    (kept.handOut leaving.written).performAll leaving.deeds,
    (handOut_sameItems server leaving.written).trans (performAll_sameItems leaving.deeds _), ?_, rfl⟩
  · obtain ⟨number, numbers, list⟩ := List.exists_cons_of_ne_nil some
    have handed : (server.handOut leaving.written).1 = number := by
      unfold Server.handOut
      rw [getNextTransactionNumber_eq, list]
      rfl
    rw [handed]
    exact kept.numbers.nonzero number (kept.numbers.unused number (list ▸ List.mem_cons_self)).1
  · rw [performAll_length, handOut_length]

/-- A removed item is gone from both containers. -/
theorem Kept.without (kept : Kept server) (inside : entry ∈ server.cron.cronItemsMulti) (some : number ≠ 0) :
    Kept { server with
      cron := (server.cron.eraseFromMultimap entry).eraseFromMap entry.2.transactionNum
      removals := server.removals ++ [⟨entry.2.transactionNum, number⟩]
      unsavedRemovals := server.unsavedRemovals ++ [entry.2.transactionNum] } := by
  obtain ⟨numbers, ⟨mirrors, present, fileNodup, filed, known, once, numbered⟩⟩ := kept
  have apart : (server.cron.cronItemsMulti.map Prod.snd).Perm (entry.2 :: (server.cron.cronItemsMulti.erase entry).map Prod.snd) :=
    (List.perm_cons_erase inside).map Prod.snd
  have here : entry.2 ∈ server.cron.cronItemsMulti.map Prod.snd := List.mem_map_of_mem inside
  have alone : entry.2.transactionNum ∉ ((server.cron.cronItemsMulti.erase entry).map Prod.snd).map CronItem.transactionNum :=
    (List.nodup_cons.mp ((apart.map CronItem.transactionNum).nodup_iff.mp mirrors.nodup)).1
  have split : (server.removals ++ [Removal.mk entry.2.transactionNum number]).map Removal.transactionNum =
      server.removed ++ [entry.2.transactionNum] := List.map_append
  have removed {other : TransactionNumber}
      (gone : other ∈ (server.removals ++ [Removal.mk entry.2.transactionNum number]).map Removal.transactionNum) :
      other ∈ server.removed ∨ other = entry.2.transactionNum := by
    rw [split] at gone
    exact (List.mem_append.mp gone).imp_right List.mem_singleton.mp
  refine ⟨⟨numbers.1, numbers.2, numbers.3, numbers.4, numbers.5, numbers.6, numbers.7⟩,
    ⟨mirrors.erase apart, fun item member => ?_, fileNodup, fun other member => ?_, fun other member => ?_, ?_, ?_⟩⟩
  · obtain ⟨received, staying⟩ := present item (apart.mem_iff.mpr (List.mem_cons_of_mem _ member))
    refine ⟨received, fun gone => ?_⟩
    rcases removed gone with before | now
    · exact staying before
    · exact alone (now ▸ List.mem_map_of_mem member)
  · obtain ⟨received, unsaved⟩ := filed other member
    refine ⟨received, fun gone => ?_⟩
    rcases removed gone with before | now
    · exact List.mem_append_left _ (unsaved before)
    · exact List.mem_append_right _ (List.mem_singleton.mpr now)
  · rcases removed member with before | now
    · exact known other before
    · exact now ▸ (present entry.2 here).1
  · show ((server.removals ++ [Removal.mk entry.2.transactionNum number]).map Removal.transactionNum).Nodup
    rw [split]
    exact List.nodup_append.mpr ⟨once, List.nodup_singleton _, fun other gone last single same =>
      (present entry.2 here).2 (List.mem_singleton.mp single ▸ same ▸ gone)⟩
  · exact List.forall_mem_append.mpr ⟨numbered, List.forall_mem_singleton.mpr some⟩

/-! ## The calls -/

theorem Kept.addTransactionNumber (kept : Kept server) (some : number ≠ 0) (new : number ∉ server.issued) :
    Kept (server.addTransactionNumber number) := by
  obtain ⟨⟨nonzero, nodup, unused, fileNodup, fileUnused, known, fresh⟩, items⟩ := kept
  refine ⟨⟨?_, ?_, ?_, fileNodup, ?_, ?_, fresh⟩, items.of_same ⟨rfl, rfl, rfl, rfl⟩ rfl rfl⟩
  · exact List.forall_mem_append.mpr ⟨nonzero, List.forall_mem_singleton.mpr some⟩
  · exact List.nodup_append.mpr ⟨nodup, List.nodup_singleton _, fun other inside last single same =>
      new (List.mem_singleton.mp single ▸ same ▸ (unused other inside).1)⟩
  · refine List.forall_mem_append.mpr ⟨fun other inside => ?_, List.forall_mem_singleton.mpr ⟨?_, fun written => new (known number written)⟩⟩
    · exact ⟨List.mem_append_left _ (unused other inside).1, (unused other inside).2⟩
    · exact List.mem_append_right _ (List.mem_singleton_self number)
  · exact fun other inside => ⟨List.mem_append_left _ (fileUnused other inside).1, (fileUnused other inside).2⟩
  · exact fun other inside => List.mem_append_left _ (known other inside)

theorem insert_perm (cron : OTCron) (item : CronItem) (date : Date) :
    ((cron.insert item date).cronItemsMulti.map Prod.snd).Perm (item :: cron.cronItemsMulti.map Prod.snd) := by
  have middle : (cron.insert item date).cronItemsMulti.Perm ((date, item) :: cron.cronItemsMulti) := by
    have whole : (cron.insert item date).cronItemsMulti.Perm
        ((date, item) :: (cron.cronItemsMulti.takeWhile (·.1 ≤ date) ++ cron.cronItemsMulti.dropWhile (·.1 ≤ date))) :=
      List.perm_middle
    rw [List.takeWhile_append_dropWhile] at whole
    exact whole
  exact middle.map Prod.snd

theorem insert_mirrors {cron : OTCron} {item : CronItem} (date : Date)
    (mirrors : Mirrors CronItem.transactionNum cron.cronItems (cron.cronItemsMulti.map Prod.snd))
    (new : ¬ (cron.findItemOnMap item.transactionNum).isSome) :
    Mirrors CronItem.transactionNum (cron.insert item date).cronItems ((cron.insert item date).cronItemsMulti.map Prod.snd) :=
  (mirrors.insert (Option.not_isSome_iff_eq_none.mp new)).congr (insert_perm cron item date).symm

/-- What was removed has a receipt, and so an item with a new receipt was never removed. -/
theorem Kept.addCronItem (kept : Kept server) (item : CronItem) (date : Date) (activation : Activation) :
    Kept (server.addCronItem item true date activation).1 := by
  unfold Server.addCronItem
  split
  · exact kept
  · next new =>
    rw [if_pos rfl]
    split
    · exact kept
    · next unknown =>
      obtain ⟨_, unknown⟩ := not_or.mp unknown
      refine Kept.saveCron (Kept.performAll _ ?_) _
      obtain ⟨numbers, ⟨mirrors, present, fileNodup, filed, known, once, numbered⟩⟩ := kept
      refine ⟨⟨numbers.1, numbers.2, numbers.3, numbers.4, numbers.5, numbers.6, numbers.7⟩,
        ⟨insert_mirrors date mirrors new, fun other inside => ?_, fileNodup, ?_, ?_, once, numbered⟩⟩
      · rcases List.mem_cons.mp ((insert_perm server.cron item date).mem_iff.mp inside) with rfl | before
        · exact ⟨List.mem_append_right _ (List.mem_singleton_self _), fun gone => unknown (known _ gone)⟩
        · exact ⟨List.mem_append_left _ (present other before).1, (present other before).2⟩
      · exact fun other inside => ⟨List.mem_append_left _ (filed other inside).1, (filed other inside).2⟩
      · exact fun other inside => List.mem_append_left _ (known other inside)

theorem Kept.removeCronItem (kept : Kept server) (leaving : Leaving) (saves : Bool)
    (some : server.cron.findItemOnMap number ≠ none → server.cron.listTransactionNumbers ≠ []) :
    ∃ after, server.removeCronItem number leaving saves = .some after ∧ Kept after.1 := by
  unfold Server.removeCronItem
  split
  · exact ⟨_, rfl, kept⟩
  · next item found =>
    obtain ⟨inside, rfl⟩ := kept.items.same.of_lookup found
    obtain ⟨entry, member, same⟩ := List.mem_map.mp inside
    split
    · next lost =>
      exact absurd (decide_eq_true (congrArg CronItem.transactionNum same)) (List.find?_eq_none.mp lost entry member)
    · next entry' first =>
      obtain ⟨number, _⟩ := List.find?_eq_some_iff_append.mp first
      have entered := List.mem_of_find?_eq_some first
      have item' : entry'.2 = item := by
        have other := kept.items.same.lookup (List.mem_map_of_mem entered)
        rw [of_decide_eq_true number] at other
        exact Option.some.inj (other.symm.trans found)
      obtain ⟨receipt, before, nonzero, kept, hooks, _, hooked⟩ :=
        hookRemovalFromCron_eq kept item leaving (some (found ▸ Option.some_ne_none item))
      refine ⟨_, rfl, Kept.saveCron ?_ saves⟩
      rw [hooked]
      subst item'
      exact kept.without (hooks.cronItemsMulti.symm ▸ entered) nonzero

/-- The items that are still to come are still there. -/
theorem processItems_kept {process : CronItem → Processing} (entries : List (Date × CronItem)) : ∀ {server : Server} {needToSave : Bool},
    Kept server → entries.Nodup → (∀ entry ∈ entries, entry ∈ server.cron.cronItemsMulti) →
      Lasts refillAmount process entries server.cron.listTransactionNumbers.length →
        ∃ after, Server.processItems refillAmount process entries (server, needToSave) = some after ∧ Kept after.1 := by
  induction entries with
  | nil => exact fun kept _ _ _ => ⟨_, rfl, kept⟩
  | cons entry entries ih =>
    intro server needToSave kept nodup inside lasts
    obtain ⟨new, nodup⟩ := List.nodup_cons.mp nodup
    obtain ⟨here, inside⟩ := List.forall_mem_cons.mp inside
    unfold Server.processItems
    split
    · exact ⟨_, rfl, kept⟩
    · next enough =>
      have lasts := lasts.resolve_left enough
      have done := kept.performAll (process entry.2).deeds
      have same := performAll_sameItems (process entry.2).deeds server
      have count := performAll_length (process entry.2).deeds server
      dsimp only
      split
      · next stays =>
        rw [if_pos stays] at lasts
        exact ih done nodup (same.cronItemsMulti.symm ▸ inside) (count.symm ▸ lasts)
      · next leaves =>
        rw [if_neg leaves, ← count] at lasts
        obtain ⟨left, lasts⟩ := lasts
        obtain ⟨receipt, before, nonzero, kept, hooks, rest, hooked⟩ :=
          hookRemovalFromCron_eq done entry.2 (process entry.2).leaving (List.ne_nil_of_length_pos left)
        have multi : before.cron.cronItemsMulti = server.cron.cronItemsMulti := hooks.cronItemsMulti.trans same.cronItemsMulti
        have entered : entry ∈ before.cron.cronItemsMulti := multi.symm ▸ here
        have found : before.cron.findItemOnMap entry.2.transactionNum = some entry.2 :=
          kept.items.same.lookup (List.mem_map_of_mem entered)
        rw [hooked]
        split
        · next lost => exact absurd (found.symm.trans lost) (Option.some_ne_none _)
        · next item again =>
          obtain rfl : entry.2 = item := Option.some.inj (found.symm.trans again)
          refine ih (kept.without entered nonzero) nodup (fun other member => ?_) (rest.symm ▸ lasts)
          have apart : other ≠ entry := fun same => new (same ▸ member)
          exact (List.mem_erase_of_ne apart).mpr (multi.symm ▸ inside other member)

theorem Kept.processCronItems (kept : Kept server) {process : CronItem → Processing} (due saves : Bool)
    (lasts : Lasts refillAmount process server.cron.cronItemsMulti server.cron.listTransactionNumbers.length) :
    ∃ after, server.processCronItems refillAmount due process saves = some after ∧ Kept after := by
  unfold Server.processCronItems
  split
  · exact ⟨_, rfl, kept⟩
  · split
    · exact ⟨_, rfl, kept⟩
    · have nodup : server.cron.cronItemsMulti.Nodup := ((kept.items.same.nodup).of_map _).of_map _
      obtain ⟨after, ran, kept⟩ := processItems_kept server.cron.cronItemsMulti kept nodup (fun _ inside => inside) lasts
      rw [ran]
      refine ⟨_, rfl, ?_⟩
      dsimp only
      split
      · exact kept.saveCron saves
      · exact kept

/-! ## Restarts -/

theorem foldl_addTransactionNumber (numbers : List TransactionNumber) : ∀ cron : OTCron, numbers.foldl OTCron.addTransactionNumber cron =
    { cron with listTransactionNumbers := cron.listTransactionNumbers ++ numbers } := by
  induction numbers with
  | nil =>
    intro cron
    rw [List.append_nil]
    rfl
  | cons number numbers ih =>
    intro cron
    rw [List.foldl_cons, ih]
    exact congrArg _ (List.append_assoc _ _ _)

/-- Items with numbers of their own are all loaded. -/
theorem loadItems_eq (addresses : TransactionNumber → Nat) (items : List (Text × TransactionNumber)) : ∀ server : Server,
    Mirrors CronItem.transactionNum server.cron.cronItems (server.cron.cronItemsMulti.map Prod.snd) →
      ((server.cron.cronItemsMulti.map Prod.snd).map CronItem.transactionNum ++ items.map Prod.snd).Nodup →
        ∃ cron, Server.loadItems addresses items server = ({ server with cron }, true) ∧
          Mirrors CronItem.transactionNum cron.cronItems (cron.cronItemsMulti.map Prod.snd) ∧
          cron.listTransactionNumbers = server.cron.listTransactionNumbers ∧
          ∀ item ∈ cron.cronItemsMulti.map Prod.snd,
            item ∈ server.cron.cronItemsMulti.map Prod.snd ∨ item.transactionNum ∈ items.map Prod.snd := by
  induction items with
  | nil => exact fun server mirrors _ => ⟨server.cron, rfl, mirrors, rfl, fun item inside => .inl inside⟩
  | cons first items ih =>
    intro server mirrors nodup
    obtain ⟨date, number⟩ := first
    have unknown : ¬ (server.cron.findItemOnMap number).isSome := by
      intro found
      have inside := mirrors.mem_map_key.mpr (Option.isSome_iff_ne_none.mp found)
      exact (List.nodup_append.mp nodup).2.2 number inside number List.mem_cons_self rfl
    have perm := insert_perm server.cron ⟨addresses number, number⟩ (parseTimestamp date)
    have loaded : server.addCronItem ⟨addresses number, number⟩ false (parseTimestamp date) ⟨true, [], false⟩ =
        ({ server with cron := server.cron.insert ⟨addresses number, number⟩ (parseTimestamp date) }, true) := by
      unfold Server.addCronItem
      rw [if_neg unknown]
      rfl
    have rest : (((server.cron.insert ⟨addresses number, number⟩ (parseTimestamp date)).cronItemsMulti.map Prod.snd).map
        CronItem.transactionNum ++ items.map Prod.snd).Nodup :=
      (((perm.map CronItem.transactionNum).append_right _).trans List.perm_middle.symm).nodup_iff.mpr nodup
    obtain ⟨cron, ran, same, list, from_file⟩ := ih { server with cron := server.cron.insert ⟨addresses number, number⟩ (parseTimestamp date) }
      (insert_mirrors (parseTimestamp date) mirrors unknown) rest
    refine ⟨cron, ?_, same, list, fun item inside => ?_⟩
    · unfold Server.loadItems
      rw [loaded]
      exact ran
    · rcases from_file item inside with before | filed
      · rcases List.mem_cons.mp (perm.mem_iff.mp before) with rfl | before
        · exact .inr List.mem_cons_self
        · exact .inl before
      · exact .inr (List.mem_cons_of_mem _ filed)

theorem Kept.restart (kept : Kept server) (addresses : TransactionNumber → Nat) (receipts : server.unsavedReceipts = [])
    (removals : server.unsavedRemovals = []) : Kept (server.restart addresses) := by
  obtain ⟨⟨nonzero, _, _, fileNodup, fileUnused, known, fresh⟩, ⟨_, _, itemsNodup, filed, removed, once, numbered⟩⟩ := kept
  obtain ⟨cron, ran, same, list, from_file⟩ := loadItems_eq addresses server.file.cronItems { server with cron := {} } .empty itemsNodup
  have loaded : server.restart addresses = { server with
      cron := { cron with listTransactionNumbers := server.file.transactionNumbers } } := by
    unfold Server.restart
    rw [ran]
    dsimp only
    rw [foldl_addTransactionNumber, list]
    rfl
  rw [loaded]
  refine ⟨⟨nonzero, fileNodup, fun number inside => ?_, fileNodup, fileUnused, known, fresh⟩,
    ⟨same, fun item inside => ?_, itemsNodup, filed, removed, once, numbered⟩⟩
  · obtain ⟨issued, unsaved⟩ := fileUnused number inside
    exact ⟨issued, fun written => List.not_mem_nil (receipts ▸ unsaved written)⟩
  · obtain ⟨received, unsaved⟩ := filed item.transactionNum ((from_file item inside).resolve_left List.not_mem_nil)
    exact ⟨received, fun gone => List.not_mem_nil (removals ▸ unsaved gone)⟩

/-! ## Every run -/

theorem step_kept (event : Event) (server : Server) (kept : Kept server) (may : May refillAmount event server) :
    ∃ next, (machine refillAmount).step event server = some next ∧ Kept next := by
  cases event with
  | addTransactionNumber number => exact ⟨_, rfl, kept.addTransactionNumber may.1 may.2⟩
  | addCronItem item date activation => exact ⟨_, rfl, kept.addCronItem item date activation⟩
  | removeCronItem number leaving saves =>
    obtain ⟨after, ran, kept⟩ := kept.removeCronItem leaving saves may
    exact ⟨after.1, congrArg (Option.map Prod.fst) ran, kept⟩
  | processCronItems due process saves => exact kept.processCronItems due saves may
  | restart addresses => exact ⟨_, rfl, kept.restart addresses may.1 may.2⟩

/-- No assertion fails, and the books are right after every call. -/
theorem bookkeeping_right {events : List Event} (allowed : (machine refillAmount).Allows (May refillAmount) events {}) :
    ∃ server, (machine refillAmount).runs events {} = some server ∧ Right server := by
  obtain ⟨server, ran, kept⟩ := Machine.runs_allowed step_kept events {} kept_start allowed
  exact ⟨server, ran, kept.right⟩

def stored : Activation := { stored := true, deeds := [], saves := true }

/-- An item that tells its parties something, which uses up a number, and stays. -/
def notifying : CronItem → Processing := fun _ => { deeds := [.takeNumber true], stays := true, leaving := { written := true, deeds := [] } }

/-- The item is processed, its numbers are saved when another is added, and the first item leaves after a restart. -/
theorem notices_then_restart : ∃ server, (machine 5).runs [.addTransactionNumber 1, .addTransactionNumber 2, .addTransactionNumber 3,
    .addCronItem ⟨0, 7⟩ 0 stored, .processCronItems true notifying true, .addCronItem ⟨1, 8⟩ 0 stored, .restart fun _ => 2,
    .removeCronItem 7 { written := true, deeds := [] } true] {} = some server ∧ Right server :=
  bookkeeping_right (by decide +kernel)

/-- Without numbers the final receipt is given a zero. And a number that is on a notice is handed out
again after a restart, for nothing was saved after the notice. -/
theorem books_go_wrong :
    (∃ server, (machine 500).runs [.addCronItem ⟨0, 7⟩ 0 stored, .removeCronItem 7 { written := true, deeds := [] } true] {} = some server ∧
      ¬ Right server) ∧
    ∃ server, (machine 5).runs [.addTransactionNumber 1, .addTransactionNumber 2, .addCronItem ⟨0, 7⟩ 0 stored,
      .processCronItems true notifying true, .restart fun _ => 1, .processCronItems true notifying true] {} = some server ∧ ¬ Right server := by
  refine ⟨⟨_, rfl, fun right => ?_⟩, ⟨_, rfl, fun right => ?_⟩⟩
  · exact right.numbered _ List.mem_cons_self rfl
  · exact (List.pairwise_cons.mp right.fresh).1 _ List.mem_cons_self rfl rfl

end Opentxs.Cron
