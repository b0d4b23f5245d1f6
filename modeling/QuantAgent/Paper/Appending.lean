import QuantAgent.Domain.ActionReplay
import QuantAgent.Paper.OrderAgreement

/-!
# The broker only appends

Whatever a call of the broker does and however it ends, the canonical ledger is moved by appends
only.  What every append keeps is therefore kept by every call.
-/

namespace QuantAgent.Paper

open Library Domain MarketRules

variable [Hashing ℚ]

def Extends : CanonicalLedger ℚ → CanonicalLedger ℚ → Prop :=
  Relation.ReflTransGen fun before after ↦ ∃ recordedAt write entry,
    after = (before.append recordedAt write entry).1

theorem Extends.append (ledger : CanonicalLedger ℚ) (recordedAt : String) (write : Write)
    (entry : Entry ℚ) : Extends ledger (ledger.append recordedAt write entry).1 :=
  .single ⟨recordedAt, write, entry, rfl⟩

/-- What every append keeps is kept by any number of them. -/
theorem Extends.keeps {property : CanonicalLedger ℚ → Prop}
    (happend : ∀ ledger recordedAt write entry, property ledger →
      property (ledger.append recordedAt write entry).1)
    {before after : CanonicalLedger ℚ} (h : Extends before after) (hbefore : property before) :
    property after := by
  induction h with
  | refl => exact hbefore
  | tail _ hstep ih =>
    obtain ⟨recordedAt, write, entry, rfl⟩ := hstep
    exact happend _ _ _ _ ih

theorem extends_perform (mirror : Mirror ℚ) (moment : Moment) (call : MirrorCall ℚ) :
    Extends mirror.ledger (mirror.perform moment call).1.ledger := by
  cases hadvance : call.advance mirror.book moment.now with
  | none =>
    rw [(Mirror.perform_of_not_advance hadvance).1]
    exact .refl
  | some pair =>
    rw [Mirror.perform_of_advance hadvance]
    have hextends := Extends.append mirror.ledger moment.recordedAt moment.write (call.entry pair.2)
    split <;> rename_i happend <;> rwa [happend] at hextends

namespace Broker

def Appends (before after : Broker) : Prop := Extends before.mirror.ledger after.mirror.ledger

theorem Appends.refl (broker : Broker) : Appends broker broker := Relation.ReflTransGen.refl

theorem Appends.trans {first second third : Broker} (h : Appends first second)
    (h' : Appends second third) : Appends first third := Relation.ReflTransGen.trans h h'

variable {broker after : Broker}

/-- Only the record of account of a broker counts. -/
theorem Appends.of_mirror {before : Broker} (h : Appends before after)
    (hmirror : before.mirror = broker.mirror) : Appends broker after := by
  unfold Appends at h ⊢
  rwa [hmirror] at h

variable {moment : Moment}

theorem appends_record {call : MirrorCall ℚ} {result : Except VenueError (Domain.Order ℚ)}
    (h : broker.record moment call = (after, result)) : Appends broker after := by
  have hextends := extends_perform broker.mirror moment call
  unfold record at h
  split at h <;> rename_i hperform <;> rw [hperform] at hextends <;>
    · cases h
      exact hextends

variable {result : Except VenueError Unit}

variable {kind : OrderEventType}

theorem appends_applyAndAppend {canonicalId : String} {riskDecision : Option (RiskDecision ℚ)}
    {session : String}
    (h : broker.applyAndAppend moment canonicalId kind riskDecision session = (after, result)) :
    Appends broker after := by
  unfold applyAndAppend at h
  split at h
  · cases h
    exact .refl broker
  · rename_i book updated happly
    have hextends : ∀ mirror outcome, Mirror.recordLast book broker.mirror.ledger moment updated
        canonicalId (some session) none = (mirror, outcome) →
          Extends broker.mirror.ledger mirror.ledger := by
      intro mirror outcome hrecord
      unfold Mirror.recordLast at hrecord
      split at hrecord
      · cases hrecord
        exact .refl
      · rename_i event hevent
        have happend := Extends.append broker.mirror.ledger moment.recordedAt moment.write
          ⟨some event, some session, none, none⟩
        split at hrecord <;> rename_i hledger <;> rw [hledger] at happend <;>
          · cases hrecord
            exact happend
    split at h <;> rename_i hrecord <;>
      · cases h
        exact hextends _ _ hrecord

variable {order : Order} {tradeDate : Option String}

theorem appends_canonicalOpen {answers : Answers}
    (h : broker.canonicalOpen answers order tradeDate = (after, result)) :
    Appends broker after := by
  unfold canonicalOpen at h
  simp only at h
  split at h
  · cases h
    exact .refl broker
  · split at h
    · rename_i hrecord
      cases h
      exact appends_record hrecord
    · rename_i opened canonical hrecord
      have hopened := appends_record hrecord
      split at h
      · rename_i happroved
        cases h
        exact hopened.trans ((appends_applyAndAppend happroved).of_mirror rfl)
      · rename_i happroved
        have happends := hopened.trans ((appends_applyAndAppend happroved).of_mirror rfl)
        exact happends.trans (appends_applyAndAppend h)

theorem appends_canonicalEvent {reason : Option String}
    (h : broker.canonicalEvent moment order kind reason tradeDate = (after, result)) :
    Appends broker after := by
  unfold canonicalEvent at h
  split at h
  · cases h
    exact .refl broker
  · split at h <;> rename_i hrecord <;>
      · cases h
        exact appends_record hrecord

theorem appends_canonicalFill {fill : Fill} {wallClock : String}
    (h : broker.canonicalFill moment order fill tradeDate wallClock = (after, result)) :
    Appends broker after := by
  unfold canonicalFill at h
  split at h
  · cases h
    exact .refl broker
  · simp only at h
    split at h
    · cases h
      exact .refl broker
    · split at h <;> rename_i hrecord <;>
        · cases h
          exact appends_record hrecord

theorem appends_reject {after' : Order} {reason : String}
    (h : broker.reject moment order reason tradeDate = (after, after', result)) :
    Appends broker after := by
  unfold reject at h
  simp only at h
  split at h
  · cases h
    exact .refl broker
  · cases h
    exact appends_canonicalEvent (Prod.eta _).symm

section Platform

variable [Platform]

variable {broker after : Broker} {order after' : Order}

theorem appends_applyExecutionReport {moment : Moment} {wallClock : String}
    {portfolioCheck : Option String} {fill : Fill} {tradeDate : Option String}
    {result : Except VenueError Bool}
    (h : broker.applyExecutionReport moment wallClock portfolioCheck order fill tradeDate = (after,
      after', result)) : Appends broker after := by
  unfold applyExecutionReport at h
  split at h
  · cases h
    exact .refl broker
  · split at h
    · cases h
      exact .refl broker
    · simp only at h
      split at h
      · rename_i hfill
        cases h
        exact (appends_canonicalFill hfill).of_mirror rfl
      · rename_i hfill
        have happends : Appends broker _ := (appends_canonicalFill hfill).of_mirror rfl
        split at h
        · cases h
          exact happends
        · split at h <;>
            · cases h
              exact happends

variable {answers : Answers} {market : Market}

variable {result : Except VenueError Unit}

theorem appends_attemptFill
    (h : broker.attemptFill answers order market = (after, after', result)) :
    Appends broker after := by
  unfold attemptFill at h
  split at h
  · cases h
    exact .refl broker
  · simp only at h
    split at h
    · cases h
      exact .refl broker
    · split at h
      · cases h
        exact .refl broker
      · split at h
        · rename_i hreport
          exact (appends_applyExecutionReport hreport).trans (appends_reject h)
        · rename_i hreport
          cases h
          exact appends_applyExecutionReport hreport
        · rename_i hreport
          cases h
          exact appends_applyExecutionReport hreport

omit [Hashing ℚ] in
/-- Validation leaves the record of account alone. -/
theorem mirror_validate {result : Except VenueError (Option String)}
    (h : broker.validate answers order market = (after, after', result)) :
    after.mirror = broker.mirror := by
  obtain ⟨portfolio, order', outcome, hvalidate, -⟩ := validate_cases broker answers order market
  obtain ⟨rfl, -⟩ := Prod.mk.inj (hvalidate.symm.trans h)
  rfl

theorem appends_work (h : broker.work answers order market = (after, after', result)) :
    Appends broker after := by
  have hchecked : ∀ {checked : Broker} {order' : Order} {outcome},
      broker.validate answers order market = (checked, order', outcome) → Appends broker checked := by
    intro checked order' outcome hvalidate
    rw [Appends, mirror_validate hvalidate]
    exact .refl
  unfold work at h
  split at h
  · rename_i hvalidate
    cases h
    exact hchecked hvalidate
  · rename_i hvalidate
    exact (hchecked hvalidate).trans (appends_reject h)
  · rename_i hvalidate
    split at h
    · cases h
      exact hchecked hvalidate
    · split at h
      · rename_i haccepted
        cases h
        exact (hchecked hvalidate).trans (appends_canonicalEvent haccepted)
      · rename_i haccepted
        exact ((hchecked hvalidate).trans (appends_canonicalEvent haccepted)).trans
          (appends_attemptFill h)

theorem appends_submit (broker : Broker) (answers : Answers) (order : Order) (market : Market) :
    Appends broker (broker.submit answers order market).1 := by
  have hprocess : ∀ {after : Broker} {after' : Order} {result},
      broker.process answers order market = (after, after', result) → Appends broker after := by
    intro after after' result h
    unfold process at h
    split at h
    · cases h
      exact .refl broker
    · split at h
      · exact appends_work h
      · split at h
        · rename_i hopen
          cases h
          exact appends_canonicalOpen hopen
        · rename_i hopen
          exact (appends_canonicalOpen hopen).trans (appends_work h)
  exact (hprocess (Prod.eta _).symm).trans (.of_mirror (.refl _) rfl)

omit [Platform] in
theorem appends_cancel (broker : Broker) (answers : Answers) (orderId : String)
    (tradeDate : Option String) : Appends broker (broker.cancel answers orderId tradeDate).1 := by
  unfold cancel
  split
  · exact .refl broker
  · split
    · exact .refl broker
    · split
      · exact .refl broker
      · split
        · rename_i hrequested
          exact (appends_canonicalEvent hrequested).of_mirror rfl
        · rename_i hrequested
          have happends : Appends broker _ := (appends_canonicalEvent hrequested).of_mirror rfl
          split
          · exact happends
          · exact happends.trans ((appends_canonicalEvent (Prod.eta _).symm).of_mirror rfl)

end Platform

end Broker

end QuantAgent.Paper
