import Mathlib.Data.List.AList
import Opentxs.Trading.Contracts

/-! Cron comes to its items again and again. It keeps them by number and by date, and with them the
transaction numbers for the receipts. Its file is written where somebody remembers to. -/

namespace Opentxs.Cron
open Library Trading Trading.Contracts

abbrev TransactionNumber := Int64

/-- The two containers point to one object. -/
structure CronItem where
  address : Nat
  transactionNum : TransactionNumber
  deriving DecidableEq

structure OTCron where
  cronItems : AList fun _ : TransactionNumber => CronItem := ∅
  cronItemsMulti : List (Date × CronItem) := []
  listTransactionNumbers : List TransactionNumber := []

/-- A date is written in whole seconds. -/
structure CronFile where
  cronItems : List (Text × TransactionNumber) := []
  transactionNumbers : List TransactionNumber := []

namespace OTCron

variable (cron : OTCron)

def transactionCount : Int32 := Int32.ofNat cron.listTransactionNumbers.length

def addTransactionNumber (number : TransactionNumber) : OTCron :=
  { cron with listTransactionNumbers := cron.listTransactionNumbers ++ [number] }

def getNextTransactionNumber : TransactionNumber × OTCron :=
  match cron.listTransactionNumbers with
  | [] => (0, cron)
  | number :: numbers => (number, { cron with listTransactionNumbers := numbers })

def findItemOnMap (number : TransactionNumber) : Option CronItem := cron.cronItems.lookup number

def findItemOnMultimap (number : TransactionNumber) : Option (Date × CronItem) :=
  cron.cronItemsMulti.find? fun entry => entry.2.transactionNum = number

/-- Among those of one date the item is the last. -/
def insert (item : CronItem) (date : Date) : OTCron :=
  { cron with
    cronItems := cron.cronItems.insert item.transactionNum item
    cronItemsMulti := cron.cronItemsMulti.takeWhile (·.1 ≤ date) ++ (date, item) :: cron.cronItemsMulti.dropWhile (·.1 ≤ date) }

def eraseFromMap (number : TransactionNumber) : OTCron := { cron with cronItems := cron.cronItems.erase number }

def eraseFromMultimap (entry : Date × CronItem) : OTCron := { cron with cronItemsMulti := cron.cronItemsMulti.erase entry }

def updateContents : CronFile where
  cronItems := cron.cronItemsMulti.map fun entry => (formatTimestamp entry.1, entry.2.transactionNum)
  transactionNumbers := cron.listTransactionNumbers

end OTCron

/-! ## The server -/

/-- A number that was handed out, and whether it was written on a receipt that was saved. -/
structure Handed where
  number : TransactionNumber
  written : Bool

structure Removal where
  transactionNum : TransactionNumber
  finalReceipt : TransactionNumber

/-- Cron with its file and the receipts of the items, and a record of what was ever done. Some of it
was done since the file was written. -/
structure Server where
  cron : OTCron := {}
  file : CronFile := {}
  cronReceipts : List TransactionNumber := []
  issued : List TransactionNumber := []
  handed : List Handed := []
  removals : List Removal := []
  unsavedReceipts : List TransactionNumber := []
  unsavedRemovals : List TransactionNumber := []

/-- What an item does when it is called. -/
inductive Deed
  | takeNumber (written : Bool)
  | saveCron (saves : Bool)

/-- What an item does when it is activated, and whether it can be signed and stored. -/
structure Activation where
  stored : Bool
  deeds : List Deed
  saves : Bool

/-- What an item does when it leaves: whether a final receipt is dropped, and what else. -/
structure Leaving where
  written : Bool
  deeds : List Deed

/-- What an item does when it is processed. -/
structure Processing where
  deeds : List Deed
  stays : Bool
  leaving : Leaving

namespace Server

variable (server : Server)

def addTransactionNumber (number : TransactionNumber) : Server :=
  { server with cron := server.cron.addTransactionNumber number, issued := server.issued ++ [number] }

def saveCron (saves : Bool) : Server :=
  if saves then { server with file := server.cron.updateContents, unsavedReceipts := [], unsavedRemovals := [] } else server

/-- Without a number there is no receipt. -/
def handOut (written : Bool) : TransactionNumber × Server :=
  let next := server.cron.getNextTransactionNumber
  let written : Bool := written ∧ next.1 ≠ 0
  (next.1, { server with
    cron := next.2
    handed := server.handed ++ [⟨next.1, written⟩]
    unsavedReceipts := if written then server.unsavedReceipts ++ [next.1] else server.unsavedReceipts })

def perform : Deed → Server
  | .takeNumber written => (server.handOut written).2
  | .saveCron saves => server.saveCron saves

def performAll (deeds : List Deed) : Server := deeds.foldl perform server

/-- The final receipt is given the next number, whatever it is. -/
def hookRemovalFromCron (item : CronItem) (leaving : Leaving) : Server :=
  let (number, server) := server.handOut leaving.written
  let server := server.performAll leaving.deeds
  { server with
    removals := server.removals ++ [⟨item.transactionNum, number⟩]
    unsavedRemovals := server.unsavedRemovals ++ [item.transactionNum] }

/-- A receipt is saved only when the item is first added, and never over another. -/
def addCronItem (item : CronItem) (saveReceipt : Bool) (date : Date) (activation : Activation) : Server × Bool :=
  if (server.cron.findItemOnMap item.transactionNum).isSome then (server, false)
  else if saveReceipt then
    if !activation.stored ∨ item.transactionNum ∈ server.cronReceipts then (server, false)
    else
      let server := { server with cronReceipts := server.cronReceipts ++ [item.transactionNum], cron := server.cron.insert item date }
      let server := server.performAll activation.deeds
      (server.saveCron activation.saves, activation.saves)
  else ({ server with cron := server.cron.insert item date }, true)

/-- Nothing comes after an assertion that fails. -/
def removeCronItem (number : TransactionNumber) (leaving : Leaving) (saves : Bool) : Option (Server × Bool) :=
  match server.cron.findItemOnMap number with
  | none => some (server, false)
  | some item =>
    match server.cron.findItemOnMultimap number with
    | none => none
    | some entry =>
      let server := server.hookRemovalFromCron item leaving
      let server := { server with cron := (server.cron.eraseFromMap number).eraseFromMultimap entry }
      some (server.saveCron saves, saves)

/-- The items one after the other, until the numbers run short. -/
def processItems (refillAmount : Int32) (process : CronItem → Processing) : List (Date × CronItem) → Server × Bool → Option (Server × Bool)
  | [], state => some state
  | entry :: entries, (server, needToSave) =>
    if server.cron.transactionCount ≤ refillAmount / 5 then some (server, needToSave)
    else
      let processing := process entry.2
      let server := server.performAll processing.deeds
      if processing.stays then processItems refillAmount process entries (server, needToSave)
      else
        let server := server.hookRemovalFromCron entry.2 processing.leaving
        let server := { server with cron := server.cron.eraseFromMultimap entry }
        match server.cron.findItemOnMap entry.2.transactionNum with
        | none => none
        | some item =>
          let server := { server with cron := server.cron.eraseFromMap item.transactionNum }
          processItems refillAmount process entries (server, true)

/-- A round is due when cron is activated and enough time has passed. -/
def processCronItems (refillAmount : Int32) (due : Bool) (process : CronItem → Processing) (saves : Bool) : Option Server :=
  if !due then some server
  else if server.cron.transactionCount ≤ refillAmount / 5 then some server
  else (processItems refillAmount process server.cron.cronItemsMulti (server, false)).map fun (server, needToSave) =>
    if needToSave then server.saveCron saves else server

/-- The items come in the order of the file. One that is not taken ends the loading. -/
def loadItems (addresses : TransactionNumber → Nat) : List (Text × TransactionNumber) → Server → Server × Bool
  | [], server => (server, true)
  | (date, number) :: items, server =>
    match server.addCronItem ⟨addresses number, number⟩ false (parseTimestamp date) ⟨true, [], false⟩ with
    | (server, true) => loadItems addresses items server
    | (server, false) => (server, false)

/-- The server starts again with what is in its files. -/
def restart (addresses : TransactionNumber → Nat) : Server :=
  match loadItems addresses server.file.cronItems { server with cron := {} } with
  | (server, true) => { server with cron := server.file.transactionNumbers.foldl OTCron.addTransactionNumber server.cron }
  | (server, false) => server

end Server

/-! ## Runs -/

/-- The calls from outside, with all that is decided elsewhere. -/
inductive Event
  | addTransactionNumber (number : TransactionNumber)
  | addCronItem (item : CronItem) (date : Date) (activation : Activation)
  | removeCronItem (number : TransactionNumber) (leaving : Leaving) (saves : Bool)
  | processCronItems (due : Bool) (process : CronItem → Processing) (saves : Bool)
  | restart (addresses : TransactionNumber → Nat)

def step (refillAmount : Int32) : Event → Server → Option Server
  | .addTransactionNumber number, server => some (server.addTransactionNumber number)
  | .addCronItem item date activation, server => some (server.addCronItem item true date activation).1
  | .removeCronItem number leaving saves, server => (server.removeCronItem number leaving saves).map Prod.fst
  | .processCronItems due process saves, server => server.processCronItems refillAmount due process saves
  | .restart addresses, server => some (server.restart addresses)

/-- Without a next state the process is at its end. -/
def machine (refillAmount : Int32) : Machine Server Event := ⟨step refillAmount⟩

end Opentxs.Cron
