import Mathlib.Logic.Function.Basic
import NeEncryptor.Pqc.Binding

/-!
# Responder handlers

HELLO and READY at the responder.  Each handler returns the new binding and the messages it sends.
`respSent` tells whether the `sendto` of a RESP succeeded; a RESP that was not sent promotes nothing.
-/

namespace NeEncryptor.Pqc

/-- The cache slot a loop over `hs_cache` stops at: the first valid entry that meets `p`. -/
def findCache (cache : Fin 4 → Option HsCacheEntry) (p : HsCacheEntry → Bool) :
    Option (Fin 4 × HsCacheEntry) :=
  (List.finRange 4).findSome? fun i => (cache i).bind fun e => if p e then some (i, e) else none

theorem findCache_some {cache : Fin 4 → Option HsCacheEntry} {p : HsCacheEntry → Bool}
    {i : Fin 4} {e : HsCacheEntry} (h : findCache cache p = some (i, e)) :
    cache i = some e ∧ p e = true := by
  obtain ⟨j, -, hj⟩ := List.exists_of_findSome?_eq_some h
  obtain ⟨e', he', hp⟩ := Option.bind_eq_some_iff.mp hj
  by_cases pe : p e' = true
  · rw [if_pos pe] at hp
    cases hp
    exact ⟨he', pe⟩
  · rw [if_neg pe] at hp
    cases hp

theorem findCache_none {cache : Fin 4 → Option HsCacheEntry} {p : HsCacheEntry → Bool} :
    findCache cache p = none ↔ ∀ i e, cache i = some e → p e = false := by
  simp only [findCache, List.findSome?_eq_none_iff, List.mem_finRange, forall_const,
    Option.bind_eq_none_iff, ite_eq_right_iff, reduceCtorEq, imp_false, Bool.not_eq_true]

namespace Binding

/-- `pqc_hs_send_cached_response`. -/
def pqcHsSendCachedResponse (now : ℕ) (respSent : Bool) (slot : Fin 4) (hello : Hello)
    (b : Binding) : Binding × List Msg :=
  match b.hsCache slot with
  | none => (b, [])
  | some e =>
    if e.hello ≠ hello || !respSent then (b, [])
    else if e.requiresCommit || e.keyPromoted then (b, [.resp hello.session e.response])
    else
      let promoted : HsCacheEntry := { e with keyPromoted := true, masterKey := 0 }
      (({ b with hsCache := Function.update b.hsCache slot (some promoted) } :
        Binding).handleHandshakeSuccess now e.masterKey, [.resp hello.session e.response])

/-- The part of `pqc_hs_handle_l3_responder_hello` that stores a RESP in the next cache slot. -/
def cacheResponse (e : HsCacheEntry) (b : Binding) : Binding :=
  { b with
    hsCache := Function.update b.hsCache b.hsCacheNext (some e)
    hsCacheNext := b.hsCacheNext + 1 }

/-- `pqc_hs_handle_l3_responder_hello`, with no other thread between its sections; `fresh` is the key
the KEM encapsulation derives. -/
def pqcHsHandleL3ResponderHello (now : ℕ) (respSent : Bool) (fresh : TrafficKey) (hello : Hello)
    (b : Binding) : Binding × List Msg :=
  match findCache b.hsCache fun e => e.hello.session == hello.session with
  | some (slot, e) =>
    -- A session id that comes back with other content is rejected.
    if e.hello = hello then b.pqcHsSendCachedResponse now respSent slot hello else (b, [])
  | none =>
    if !keyPresent b.identity.localPriv || !keyPresent b.identity.peerPub then (b, [])
    else
      let rotation := b.keyReady
      match if rotation then b.pqcHsStageNextKey fresh else some b with
      | none => (b, [])
      | some b' =>
        (b'.cacheResponse ⟨hello, ⟨hello.pk, fresh⟩, fresh, false, rotation⟩).pqcHsSendCachedResponse
          now respSent b'.hsCacheNext hello

/-- `pqc_hs_handle_ready`. -/
def pqcHsHandleReady (now : ℕ) (session : SessionId) (b : Binding) : Binding × List Msg :=
  match findCache b.hsCache fun e => e.requiresCommit && e.hello.session == session with
  | none => (b, [])
  | some (slot, e) =>
    if e.keyPromoted then (b, [.commit session])
    else if !b.slots.next.valid || b.slots.next.key != e.masterKey then (b, [])
    else
      match b.pqcHsPromoteStagedKey now with
      | none => (b, [])
      | some b' =>
        let promoted : HsCacheEntry := { e with keyPromoted := true, masterKey := 0 }
        ({ b' with hsCache := Function.update b'.hsCache slot (some promoted) }, [.commit session])

end Binding

end NeEncryptor.Pqc
