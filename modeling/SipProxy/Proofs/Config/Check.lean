import SipProxy.Config.Basic
import SipProxy.Proofs.Outcome

/-!
# Checked configurations

What a check has found out when it finds nothing wrong: every text can be read, for a listener
(`ListenerConfig.check_eq_ok_iff`) and for all that a configuration holds
(`ProxyConfig.check_eq_ok_iff`). Whether a route has a small enough pattern is not checked.
-/

namespace SipProxy

open Outcome

namespace ListenerConfig

variable {l : ListenerConfig}

theorem check_eq_ok_iff : l.check = .ok () ↔
    (∃ ip, l.ip = .ok ip ∧ ip.isUnspecified = false) ∧
    (l.udpPort.isSome ∨ l.tcpPort.isSome) ∧ ∃ targets, l.targets = .ok targets := by
  unfold check
  simp only [bind_eq_ok, refuse_eq_ok, discard_eq_ok, Bool.not_eq_true, Bool.and_eq_false_iff,
    Option.isNone_eq_false_iff]
  constructor
  · rintro ⟨ip, hip, hspecified, hports, htargets⟩
    exact ⟨⟨ip, hip, hspecified⟩, hports, htargets⟩
  · rintro ⟨⟨ip, hip, hspecified⟩, hports, htargets⟩
    exact ⟨ip, hip, hspecified, hports, htargets⟩

end ListenerConfig

namespace ProxyConfig

variable {c : ProxyConfig}

theorem check_eq_ok_iff : c.check = .ok () ↔
    c.listeners ≠ [] ∧ (∀ l ∈ c.listeners, l.check = .ok ()) ∧
    (∀ r ∈ c.routes, ∃ hop, r.hop = .ok hop) ∧ (∀ h ∈ c.hosts, ∃ ip, h.address = .ok ip) ∧
    c.resolveInterval ≠ 0 := by
  have hinterval : ∀ {e : ProxyError}, (if c.resolveInterval = 0 then throw e
      else (pure () : Except ProxyError Unit)) = .ok () ↔ c.resolveInterval ≠ 0 := by
    intro e
    split
    · rename_i h
      exact iff_of_false (fun h => nomatch h) (fun hne => hne h)
    · rename_i h
      exact iff_of_true rfl h
  unfold check
  simp only [refuse_eq_ok, andThen_eq_ok, forM_eq_ok_iff, discard_eq_ok, hinterval,
    List.isEmpty_iff, ne_eq]

end ProxyConfig

end SipProxy
