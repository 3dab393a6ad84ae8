import Mathlib.Data.Finset.Lattice.Basic
import Mathlib.Data.List.Pairwise
import Opentxs.Consensus.Numbers

/-! Promised numbers that arrive with several messages, success notices and statements, in one
order or another. -/

namespace Opentxs.Consensus.Promises
open Numbers

inductive Message
  | successNotice (numbers : Finset Int)
  | statement (issued : Finset Int)
  deriving DecidableEq

def Message.numbers : Message → Finset Int
  | .successNotice numbers => numbers
  | .statement issued => issued

/-- What it lists as a statement. -/
def Message.listed : Message → Finset Int
  | .successNotice _ => ∅
  | .statement issued => issued

def accept (data : Data) : Message → Data
  | .successNotice numbers => successNotice data numbers
  | .statement issued => (acceptIssuedNumbers data issued).1

def acceptAll (messages : List Message) (data : Data) : Data := messages.foldl accept data

/-- Each number comes with one of the messages. -/
structure Distributes (messages : List Message) (promised : Finset Int) : Prop where
  apart : messages.Pairwise fun first second => Disjoint first.numbers second.numbers
  whole : ∀ number, number ∈ promised ↔ ∃ message ∈ messages, number ∈ message.numbers

/-- Whatever a statement lists is below what later statements list. -/
def Ascending (messages : List Message) : Prop :=
  messages.Pairwise fun first second => ∀ lower ∈ first.listed, ∀ higher ∈ second.listed, lower < higher

instance (messages : List Message) : Decidable (Ascending messages) :=
  inferInstanceAs (Decidable (messages.Pairwise fun first second => ∀ lower ∈ first.listed, ∀ higher ∈ second.listed, lower < higher))

/-- All the promised numbers are issued and available and none of them is only promised, as after
one statement of all of them. -/
structure Kept (messages : List Message) (promised : Finset Int) (data : Data) : Prop where
  each : ∀ number ∈ promised, number ∈ (acceptAll messages data).issuedTransactionNumbers ∧
    number ∈ (acceptAll messages data).availableTransactionNumbers ∧ number ∉ (acceptAll messages data).tentativeTransactionNumbers
  issued : (acceptAll messages data).issuedTransactionNumbers = (acceptIssuedNumbers data promised).1.issuedTransactionNumbers
  available : (acceptAll messages data).availableTransactionNumbers = (acceptIssuedNumbers data promised).1.availableTransactionNumbers
  tentative : (acceptAll messages data).tentativeTransactionNumbers = (acceptIssuedNumbers data promised).1.tentativeTransactionNumbers

/-! ## One message -/

/-- What a message brings. -/
def Brings (data : Data) : Message → Int → Prop
  | .successNotice numbers, number => number ∈ numbers ∧ number ∈ data.tentativeTransactionNumbers
  | .statement issued, number => Numbers.Brings data issued number

variable {data : Data} {message : Message} {messages : List Message} {promised : Finset Int} {number : Int}

theorem accept_issues (data : Data) (message : Message) : Issues (Brings data message) data (accept data message) :=
  match message with
  | .successNotice numbers => successNotice_issues data numbers
  | .statement issued => (acceptIssuedNumbers_issues data issued).1

theorem Brings.listed (brings : Brings data message number) : number ∈ message.numbers :=
  match message, brings with
  | .successNotice _, brings => brings.1
  | .statement _, brings => brings.1

theorem Message.listed_subset (message : Message) : message.listed ⊆ message.numbers :=
  match message with
  | .successNotice numbers => Finset.empty_subset numbers
  | .statement issued => Finset.Subset.refl issued

theorem accept_highest_le (data : Data) (message : Message) :
    data.highestTransactionNumber ≤ (accept data message).highestTransactionNumber :=
  match message with
  | .successNotice numbers => (successNotice_highest data numbers).ge
  | .statement issued => acceptIssuedNumbers_ge data issued

/-- A number that stands out: promised and not issued. -/
def Open (data : Data) (number : Int) : Prop := number ∈ data.tentativeTransactionNumbers ∧ number ∉ data.issuedTransactionNumbers

/-- Messages that do not bring a number leave it. -/
theorem Open.accept (stands : Open data number) (absent : ¬Brings data message number) : Open (accept data message) number := by
  have issues := accept_issues data message
  exact ⟨(issues.tentative number).mpr ⟨stands.1, absent⟩, fun issued => ((issues.issued number).mp issued).elim stands.2 absent⟩

/-- After a statement the highest number is no lower than any open number that it lists. -/
theorem statement_raises {issued : Finset Int} (stands : Open data number) (listed : number ∈ issued) :
    number ≤ (acceptIssuedNumbers data issued).1.highestTransactionNumber := by
  have inside : number ∈ adding data issued := mem_adding.mpr ⟨listed, stands⟩
  rw [(acceptIssuedNumbers_issues data issued).2]
  rcases updateHighest_cases data (adding data issued) with ⟨stays, below⟩ | ⟨_, _, _, below, raised⟩
  · rw [stays]
    exact below number inside
  · rw [raised]
    exact below number inside

/-- A statement drops what is not above the highest number. -/
theorem statement_drops {issued : Finset Int} (stands : Open data number) (low : number ≤ data.highestTransactionNumber) :
    Open (accept data (.statement issued)) number := stands.accept fun brings => absurd brings.2.2.2 (not_lt.mpr low)

/-! ## Numbers in order -/

/-- The messages that are still to come bring all that they list. -/
structure Ready (messages : List Message) (data : Data) : Prop where
  stands : ∀ message ∈ messages, ∀ number ∈ message.numbers, Open data number
  above : ∀ message ∈ messages, ∀ number ∈ message.listed, data.highestTransactionNumber < number

theorem Ready.brings (ready : Ready messages data) (inside : message ∈ messages) : Brings data message number ↔ number ∈ message.numbers := by
  refine ⟨Brings.listed, fun listed => ?_⟩
  have stands := ready.stands message inside number listed
  cases message with
  | successNotice numbers => exact ⟨listed, stands.1⟩
  | statement issued => exact ⟨listed, stands.1, stands.2, ready.above _ inside number listed⟩

theorem Ready.accept (ready : Ready (message :: messages) data) (apart : ∀ other ∈ messages, Disjoint message.numbers other.numbers)
    (ascending : ∀ other ∈ messages, ∀ lower ∈ message.listed, ∀ higher ∈ other.listed, lower < higher) :
    Ready messages (accept data message) where
  stands := by
    intro other inside number listed
    refine (ready.stands other (List.mem_cons_of_mem _ inside) number listed).accept fun brings => ?_
    exact Finset.disjoint_left.mp (apart other inside) brings.listed listed
  above := by
    intro other inside number listed
    have before := ready.above other (List.mem_cons_of_mem _ inside) number listed
    cases message with
    | successNotice numbers =>
      show (successNotice data numbers).highestTransactionNumber < number
      rw [successNotice_highest]
      exact before
    | statement lower =>
      show (acceptIssuedNumbers data lower).1.highestTransactionNumber < number
      rw [(acceptIssuedNumbers_issues data lower).2]
      rcases updateHighest_cases data (adding data lower) with ⟨stays, _⟩ | ⟨highest, member, _, _, raised⟩
      · rw [stays]
        exact before
      · rw [raised]
        exact ascending other inside highest (mem_adding.mp member).1 number listed

theorem Ready.acceptAll (messages : List Message) : ∀ {data : Data}, Ready messages data →
    (messages.Pairwise fun first second => Disjoint first.numbers second.numbers) → Ascending messages →
      Issues (fun number => ∃ message ∈ messages, number ∈ message.numbers) data (acceptAll messages data) := by
  induction messages with
  | nil => exact fun _ _ _ => Issues.none fun number => by simp
  | cons message messages ih =>
    intro data ready apart ascending
    obtain ⟨here, later⟩ := List.pairwise_cons.mp apart
    obtain ⟨lower, rest⟩ := List.pairwise_cons.mp ascending
    refine ((accept_issues data message).trans (ih (ready.accept here lower) later rest)).congr fun number => ?_
    rw [ready.brings List.mem_cons_self, List.exists_mem_cons_iff]

/-! ## Numbers out of order -/

/-- A number that is not above the highest one stays open, as only statements list it. -/
theorem Open.dropped (messages : List Message) : ∀ {data : Data}, Open data number → number ≤ data.highestTransactionNumber →
    (∀ message ∈ messages, number ∈ message.numbers → message.listed = message.numbers) → Open (Promises.acceptAll messages data) number := by
  induction messages with
  | nil => exact fun stands _ _ => stands
  | cons message messages ih =>
    intro data stands low only
    obtain ⟨here, later⟩ := List.forall_mem_cons.mp only
    refine ih ?_ (low.trans (accept_highest_le data message)) later
    by_cases listed : number ∈ message.numbers
    · have statement := here listed
      cases message with
      | successNotice numbers =>
        rw [← statement] at listed
        exact absurd listed (Finset.notMem_empty number)
      | statement issued => exact statement_drops stands low
    · exact stands.accept fun brings => listed brings.listed

theorem ascending_of_none_left (messages : List Message) : ∀ {data : Data},
    (∀ message ∈ messages, ∀ number ∈ message.numbers, Open data number) →
    (messages.Pairwise fun first second => Disjoint first.numbers second.numbers) →
    (∀ message ∈ messages, ∀ number ∈ message.numbers, number ∉ (acceptAll messages data).tentativeTransactionNumbers) →
      Ascending messages := by
  induction messages with
  | nil => exact fun _ _ _ => List.Pairwise.nil
  | cons message messages ih =>
    intro data stands apart none_left
    obtain ⟨here, later⟩ := List.pairwise_cons.mp apart
    have rest (other : Message) (inside : other ∈ messages) (number : Int) (listed : number ∈ other.numbers) :
        Open (accept data message) number := by
      refine (stands other (List.mem_cons_of_mem _ inside) number listed).accept fun brings => ?_
      exact Finset.disjoint_left.mp (here other inside) brings.listed listed
    refine List.pairwise_cons.mpr ⟨?_, ih rest later fun other inside => none_left other (List.mem_cons_of_mem _ inside)⟩
    intro second inside lower low higher high
    by_contra above
    have raised : higher ≤ (accept data message).highestTransactionNumber := by
      cases message with
      | successNotice numbers => exact absurd low (Finset.notMem_empty lower)
      | statement issued => exact (not_lt.mp above).trans (statement_raises (stands _ List.mem_cons_self lower low) low)
    have listed := second.listed_subset high
    have only : ∀ third ∈ messages, higher ∈ third.numbers → third.listed = third.numbers := by
      intro third member there
      have same : third = second := by
        by_contra different
        have symmetric : Std.Symm fun first second : Message => Disjoint first.numbers second.numbers := ⟨fun _ _ apart => apart.symm⟩
        exact Finset.disjoint_left.mp (later.forall member inside different) there listed
      cases third with
      | successNotice numbers =>
        rw [← same] at high
        exact absurd high (Finset.notMem_empty higher)
      | statement issued => rfl
    have left := (rest _ inside higher listed).dropped messages raised only
    exact none_left _ (List.mem_cons_of_mem _ inside) higher listed left.1

/-! ## Every distribution -/

theorem Issues.same {accepted : Int → Prop} {first second : Data} (one : Issues accepted data first) (other : Issues accepted data second) :
    first.issuedTransactionNumbers = second.issuedTransactionNumbers ∧
      first.availableTransactionNumbers = second.availableTransactionNumbers ∧
      first.tentativeTransactionNumbers = second.tentativeTransactionNumbers := by
  refine ⟨?_, ?_, ?_⟩
  · ext number
    rw [one.issued, other.issued]
  · ext number
    rw [one.available, other.available]
  · ext number
    rw [one.tentative, other.tentative]

/-- Promised numbers above the highest one are all accepted exactly if none of them is issued
already and the statements list them in ascending order. -/
theorem kept_iff (tentative : promised ⊆ data.tentativeTransactionNumbers)
    (above : ∀ number ∈ promised, data.highestTransactionNumber < number) (distributes : Distributes messages promised) :
    Kept messages promised data ↔ Disjoint promised data.issuedTransactionNumbers ∧ Ascending messages := by
  have single := (acceptIssuedNumbers_issues data promised).1
  constructor
  · intro kept
    have fresh : ∀ number ∈ promised, number ∉ data.issuedTransactionNumbers := by
      intro number inside
      have gone := (kept.each number inside).2.2
      rw [kept.tentative, single.tentative] at gone
      have brings : Numbers.Brings data promised number := by
        by_contra absent
        exact gone ⟨tentative inside, absent⟩
      exact brings.2.2.1
    have listed (message : Message) (member : message ∈ messages) (number : Int) (inside : number ∈ message.numbers) :
        number ∈ promised := (distributes.whole number).mpr ⟨message, member, inside⟩
    refine ⟨Finset.disjoint_left.mpr fresh, @ascending_of_none_left messages data ?_ distributes.apart ?_⟩
    · intro message member number inside
      have here := listed message member number inside
      exact ⟨tentative here, fresh number here⟩
    · exact fun message member number inside => (kept.each number (listed message member number inside)).2.2
  · rintro ⟨fresh, ascending⟩
    have stands (number : Int) (inside : number ∈ promised) : Open data number :=
      ⟨tentative inside, Finset.disjoint_left.mp fresh inside⟩
    have ready : Ready messages data := by
      constructor
      · exact fun message member number inside => stands number ((distributes.whole number).mpr ⟨message, member, inside⟩)
      · exact fun message member number inside => above number ((distributes.whole number).mpr ⟨message, member, message.listed_subset inside⟩)
    have all : Issues (· ∈ promised) data (acceptAll messages data) :=
      (ready.acceptAll messages distributes.apart ascending).congr fun number => (distributes.whole number).symm
    have once : Issues (· ∈ promised) data (acceptIssuedNumbers data promised).1 :=
      single.congr fun number => ⟨And.left, fun inside => ⟨inside, (stands number inside).1, (stands number inside).2, above number inside⟩⟩
    obtain ⟨issued, available, left⟩ := Issues.same all once
    refine ⟨fun number inside => ⟨(all.issued number).mpr (.inr inside), (all.available number).mpr (.inr inside), ?_⟩, issued, available, left⟩
    exact fun remains => ((all.tentative number).mp remains).2 inside

/-- Numbers 5 to 8 are promised. -/
def promisedFour : Data := { tentativeTransactionNumbers := {5, 6, 7, 8} }

/-- Two statements in order, with a notice of the number between them last. -/
def inOrder : List Message := [.statement {5, 6}, .statement {8}, .successNotice {7}]

theorem kept_in_order : Kept inOrder {5, 6, 7, 8} promisedFour := by
  have whole : ∀ number : Int, number ∈ ({5, 6, 7, 8} : Finset Int) ↔ ∃ message ∈ inOrder, number ∈ message.numbers := by
    intro number
    simp only [inOrder, Message.numbers, List.exists_mem_cons_iff, List.not_mem_nil, false_and, exists_false, or_false, Finset.mem_insert,
      Finset.mem_singleton]
    tauto
  have iff : Kept inOrder {5, 6, 7, 8} promisedFour ↔ _ := kept_iff (Finset.Subset.refl _) (by decide) ⟨by decide +kernel, whole⟩
  exact iff.mpr
    ⟨Finset.disjoint_empty_right _, by decide +kernel⟩

/-- Of two statements the one with the higher number comes first, and the number of the other is
left as a promise. -/
theorem out_of_order_left : ¬∀ (data : Data) (promised : Finset Int) (messages : List Message),
    promised ⊆ data.tentativeTransactionNumbers → (∀ number ∈ promised, data.highestTransactionNumber < number) →
    Distributes messages promised → Kept messages promised data := by
  intro always
  have whole : ∀ number : Int, number ∈ ({5, 6} : Finset Int) ↔
      ∃ message ∈ [Message.statement {6}, .statement {5}], number ∈ message.numbers := by
    intro number
    simp [Message.numbers, or_comm]
  have kept := always { tentativeTransactionNumbers := {5, 6} } {5, 6} [.statement {6}, .statement {5}] (Finset.Subset.refl _) (by decide)
    ⟨by decide, whole⟩
  have left : 5 ∈ (acceptAll [.statement {6}, .statement {5}] { tentativeTransactionNumbers := {5, 6} }).tentativeTransactionNumbers := by
    decide +kernel
  exact (kept.each 5 (by decide)).2.2 left

end Opentxs.Consensus.Promises
