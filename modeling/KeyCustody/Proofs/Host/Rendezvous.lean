import KeyCustody.Proofs.Host.Interleaving
import KeyCustody.Proofs.Peer.Store
import KeyCustody.Proofs.Relay.Gate
import KeyCustody.Relay.Call
/-!
# Peers of another rendezvous

A host that is told another version by a peer removes the peer from the store and disconnects it.
The recovery loop knows nothing of that: if it was told before that the peer is connected, or is
told so while the connection is being closed, it records the peer all the same. So a removed peer
may come back without a new connection, but only in this way, and no more once its connections are
closed and the loop has no such answer left.

## Main results

* `World.Step.knows`: which steps make a peer known.
* `World.Run.unknown`: a peer without connections and without an answer about it stays unknown.
* `isolation_of_mismatch`: what may be known of a peer of another rendezvous.
* `known_after_mismatch`: a run in which such a peer comes back.
-/

namespace KeyCustody.Host

open Crypto (SignatureScheme)
open Node (Recovery)
open Peer (PeerId PeerStore PublicKey)
open Relay (authenticate candidates)
open Wire (Envelope)

/-- A peer that is not known is not asked, and its envelopes are not accepted. -/
theorem shut_out_of_not_knows {S : SignatureScheme} {store : PeerStore} {p : PeerId}
    (h : ¬ store.Knows p) (own : PeerId) (now : Nat) (env : Envelope) :
    p ∉ candidates store own now ∧ authenticate S store env p ≠ .ok () := by
  refine ⟨fun hmem => h (.of_mem_peers (List.mem_of_mem_filter hmem)), fun hok => ?_⟩
  obtain ⟨-, record, key, hrecord, -⟩ := Relay.authenticate_eq_ok.1 hok
  exact h ⟨record, hrecord⟩

namespace World

variable {own p : PeerId} {w w' : World} {h : Happening} {hs : List Happening}

theorem Step.version (hstep : Step own w h w') : w'.host.version = w.host.version := by
  cases hstep with
  | event e dial now hfits => exact Machine.version_onEvent _ _ _ _ e
  | command dial now hcommands => exact Machine.version_onCommand _ _ _ _ _
  | @actAsked d isConnected now hloop => cases isConnected <;> rfl
  | _ => rfl

theorem Run.version (hrun : Run own w hs w') : w'.host.version = w.host.version := by
  induction hrun with
  | refl => rfl
  | tail hrun hstep ih => exact hstep.version.trans ih

/-- **Which steps make a peer known**: the peer tells the version of the host, or the loop goes on
with the answer that the peer is connected. -/
theorem Step.knows (hstep : Step own w h w') (hknows : w'.store.Knows p) :
    w.store.Knows p ∨ (h = .act ∧ w.Told p) ∨
      ∃ key addrs, h = .event (.identified p w.host.version key addrs) := by
  cases hstep with
  | event e dial now hfits =>
    simp only [onEvent, Machine.store_onEvent] at hknows
    cases e with
    | identified peer version key addrs =>
      simp only [Machine.onIdentified] at hknows
      split_ifs at hknows with hversion
      · rw [PeerStore.knows_addAddrs, PeerStore.knows_setPublicKey] at hknows
        by_cases hp : p = peer
        · exact .inr (.inr ⟨key, addrs, by rw [hp, hversion]⟩)
        · exact .inl ((hknows.resolve_left hp).resolve_left fun h => hp h.1)
      · exact .inl (PeerStore.knows_remove.1 hknows).2
    | _ => exact .inl hknows
  | @actAsked d isConnected now hloop =>
    cases isConnected with
    | false => exact .inl hknows
    | true =>
      rcases PeerStore.knows_addAddrs.1 hknows with hp | hknows
      · exact .inr (.inl ⟨rfl, d, hp.symm, .inl hloop⟩)
      · exact .inl hknows
  | @actDialed d outcome now hloop =>
    cases outcome with
    | connected =>
      rcases PeerStore.knows_addAddrs.1 hknows with hp | hknows
      · exact .inr (.inl ⟨rfl, d, hp.symm, .inr hloop⟩)
      · exact .inl hknows
    | failed e => exact .inl hknows
    | timedOut => exact .inl hknows
  | _ => exact .inl hknows

/-- The loop has an answer about a peer, or may get one, because a connection to it is open. -/
def Exposed (w : World) (p : PeerId) : Prop :=
  w.Told p ∨ 0 < w.links p

/-- Without a new connection, what the loop may be told of a peer comes from the earlier ones. -/
theorem Step.exposed (hstep : Step own w h w') (hw : w.Tracked) (hnew : h ≠ .event (.connected p))
    (h' : w'.Exposed p) : w.Exposed p := by
  rcases h' with htold | hlinks
  · rcases hstep.told hw htold with htold | hlinks | h
    · exact .inl htold
    · exact .inr hlinks
    · exact absurd h hnew
  · exact .inr ((hstep.links hlinks).resolve_right hnew)

theorem Run.exposed (hrun : Run own w hs w') (hw : w.Tracked)
    (hnew : Happening.event (.connected p) ∉ hs) (h' : w'.Exposed p) : w.Exposed p := by
  induction hrun with
  | refl => exact h'
  | tail hrun hstep ih =>
    rw [List.mem_append, List.mem_singleton, not_or] at hnew
    exact ih hnew.1 (hstep.exposed (hrun.tracked hw) (Ne.symm hnew.2) h')

/-- A peer that becomes known without telling the version of the host does so because the loop goes
on with the answer that it is connected. -/
theorem Run.exists_act (hrun : Run own w hs w') (hfrom : ¬ w.store.Knows p)
    (hto : w'.store.Knows p)
    (hother : ∀ key addrs, Happening.event (.identified p w.host.version key addrs) ∉ hs) :
    ∃ before after u u', hs = before ++ .act :: after ∧ Run own w before u ∧ u.Told p ∧
      Step own u .act u' ∧ Run own u' after w' := by
  induction hrun with
  | refl => exact absurd hto hfrom
  | @tail v v' hs h hrun hstep ih =>
    by_cases hknows : v.store.Knows p
    · obtain ⟨before, after, u, u', rfl, hbefore, htold, hact, hafter⟩ :=
        ih hknows fun key addrs hmem => hother key addrs (List.mem_append_left _ hmem)
      exact ⟨before, after ++ [h], u, u', by simp, hbefore, htold, hact, hafter.tail hstep⟩
    · rcases hstep.knows hto with hknows' | ⟨rfl, htold⟩ | ⟨key, addrs, rfl⟩
      · exact absurd hknows' hknows
      · exact ⟨hs, [], v, v', rfl, hrun, htold, hstep, .refl _⟩
      · rw [hrun.version] at hother
        exact absurd (List.mem_append_right _ List.mem_cons_self) (hother key addrs)

/-- **A peer without connections and without an answer about it stays unknown**, until it has a new
connection or tells the version of the host. -/
theorem Run.unknown (hrun : Run own w hs w') (hw : w.Tracked) (hfrom : ¬ w.store.Knows p)
    (hexposed : ¬ w.Exposed p) (hnew : Happening.event (.connected p) ∉ hs)
    (hother : ∀ key addrs, Happening.event (.identified p w.host.version key addrs) ∉ hs) :
    ¬ w'.store.Knows p := by
  intro hto
  obtain ⟨before, after, u, u', rfl, hbefore, htold, -, -⟩ := hrun.exists_act hfrom hto hother
  exact hexposed (hbefore.exposed hw (fun hmem => hnew (List.mem_append_left _ hmem)) (.inl htold))

/-- A host forgets a peer that tells another version. -/
theorem Step.forgets {version : String} {key : PublicKey} {addrs : List Net.Multiaddr}
    (hstep : Step own w (.event (.identified p version key addrs)) w')
    (hversion : version ≠ w.host.version) : ¬ w'.store.Knows p := by
  cases hstep with
  | event e dial now hfits =>
    simp only [onEvent, Machine.onEvent, Machine.onIdentified, if_neg hversion]
    rw [PeerStore.knows_remove]
    exact fun h => h.1 rfl

/-- **What may be known of a peer of another rendezvous.** From the moment when a host is told
another version by a peer, and as long as the peer has no new connection and does not tell the
version of the host, the peer is known only if the loop has since gone on with the answer that it is
connected, and that answer was due to an earlier connection. Once it is unknown, has no connection,
and the loop has no answer about it, it stays unknown. While it is unknown, it is not asked and its
envelopes are not accepted. -/
theorem isolation_of_mismatch {rendezvous : String} {low high grace room : Nat} {hasHandler : Bool}
    {own p : PeerId} {past hs : List Happening} {w₀ w w' : World} {version : String}
    {key : PublicKey} {addrs : List Net.Multiaddr}
    (hpast : Run own (start rendezvous low high grace room hasHandler) past w₀)
    (hmismatch : Step own w₀ (.event (.identified p version key addrs)) w)
    (hversion : version ≠ w₀.host.version) (hrun : Run own w hs w')
    (hnew : Happening.event (.connected p) ∉ hs)
    (hother : ∀ key addrs, Happening.event (.identified p w₀.host.version key addrs) ∉ hs) :
    ¬ w.store.Knows p ∧
    (w'.store.Knows p → w.Exposed p ∧ ∃ before after u u', hs = before ++ .act :: after ∧
      Run own w before u ∧ u.Told p ∧ Step own u .act u' ∧ Run own u' after w') ∧
    (∀ before after u, hs = before ++ after → Run own w before u → Run own u after w' →
      ¬ u.store.Knows p → ¬ u.Exposed p → ¬ w'.store.Knows p) ∧
    (¬ w'.store.Knows p → ∀ (S : SignatureScheme) (now : Nat) (env : Envelope),
      p ∉ candidates w'.store own now ∧ authenticate S w'.store env p ≠ .ok ()) := by
  have hw : w.Tracked := hmismatch.tracked (hpast.tracked (.start ..))
  have hforgets := hmismatch.forgets hversion
  rw [← hmismatch.version] at hother
  refine ⟨hforgets, fun hto => ?_, fun before after u heq hbefore hafter hfrom hexposed => ?_,
    fun h S now env => shut_out_of_not_knows h own now env⟩
  · obtain ⟨before, after, u, u', rfl, hbefore, htold, hact, hafter⟩ :=
      hrun.exists_act hforgets hto hother
    have hnew' : Happening.event (.connected p) ∉ before :=
      fun hmem => hnew (List.mem_append_left _ hmem)
    exact ⟨hbefore.exposed hw hnew' (.inl htold), before, after, u, u', rfl, hbefore, htold, hact,
      hafter⟩
  · subst heq
    refine hafter.unknown (hbefore.tracked hw) hfrom hexposed
      (fun hmem => hnew (List.mem_append_right _ hmem)) fun key addrs hmem => ?_
    rw [hbefore.version] at hmem
    exact hother key addrs (List.mem_append_right _ hmem)

/-! ### A peer that comes back, and one that does not -/

/-- The identity of a peer nearby. -/
def nearby : Peer.Identity Relay.plainScheme := Relay.plainIdentity 2

/-- What the peer nearby announces. -/
def announcement : Node.Discovered := ⟨nearby.peerId, [[.socket "tcp" 4001]]⟩

/-- A host with a smaller id, at its start. -/
def home : World := start "home" 100 400 60000 16 true

/-- The id of this host. -/
def homeId : PeerId := (Relay.plainIdentity 1).peerId

theorem begin_announcement : Recovery.begin homeId announcement = some (.asking announcement) := by
  decide +kernel

/-- What the peer nearby tells of itself. -/
def foreign : Event := .identified nearby.peerId "/keylocker/away" nearby.publicKey []

/-- The world after the host handled an event at instant zero. -/
def after (w : World) (e : Event) : World := w.onEvent e (fun _ _ => .started) 0

theorem Run.after {e : Event} (hrun : Run own w hs w') (hfits : e.Fits w'.links) :
    Run own w (hs ++ [.event e]) (w'.after e) :=
  hrun.tail (.event e _ 0 hfits)

/-- The peer nearby connects, tells another version and is disconnected: it is not asked, and its
envelopes are not accepted. -/
theorem shut_out_after_mismatch : ∃ w₀ w w' : World,
    Run homeId home [.event (.connected nearby.peerId)] w₀ ∧ Step homeId w₀ (.event foreign) w ∧
    Run homeId w [.event (.closed nearby.peerId 0)] w' ∧
    nearby.peerId ∉ candidates w'.store homeId 0 ∧
    authenticate Relay.plainScheme w'.store (Relay.plainAnswer 2) nearby.peerId ≠ .ok () := by
  have hstart : Run homeId home [] home := .refl home
  have hpast := hstart.after (e := .connected nearby.peerId) trivial
  have hmismatch : Step homeId (home.after (.connected nearby.peerId)) (.event foreign)
      ((home.after (.connected nearby.peerId)).after foreign) := .event _ _ 0 trivial
  have hlinks :
      ((home.after (.connected nearby.peerId)).after foreign).links nearby.peerId = 1 := by
    decide +kernel
  have hstay : Run homeId ((home.after (.connected nearby.peerId)).after foreign) [] _ := .refl _
  have hrun := hstay.after (e := .closed nearby.peerId 0) hlinks
  obtain ⟨-, hknown, -, hshut⟩ :=
    isolation_of_mismatch hpast hmismatch (by decide +kernel) hrun (by simp) (by simp)
  refine ⟨_, _, _, hpast, hmismatch, hrun, hshut (fun hto => ?_) _ _ _⟩
  obtain ⟨-, before, after, u, u', heq, -⟩ := hknown hto
  have hact : Happening.act ∈ [] ++ [Happening.event (.closed nearby.peerId 0)] := by simp [heq]
  simp at hact

/-- The peer nearby connects and is discovered, and the loop is told that it is connected. Then the
peer tells another version, and the loop goes on with what it was told: the peer is among those that
are asked, and its envelopes are accepted. -/
theorem known_after_mismatch : ∃ w₀ w w' : World,
    Run homeId home [.event (.connected nearby.peerId),
      .event (.discovered [(nearby.peerId, [.socket "tcp" 4001])]), .notice, .answer] w₀ ∧
    Step homeId w₀ (.event foreign) w ∧ "/keylocker/away" ≠ w₀.host.version ∧
    Run homeId w [.act] w' ∧ nearby.peerId ∈ candidates w'.store homeId 0 ∧
    authenticate Relay.plainScheme w'.store (Relay.plainAnswer 2) nearby.peerId = .ok () := by
  have hstart : Run homeId home [] home := .refl home
  have hdiscovered := (hstart.after (e := .connected nearby.peerId) trivial).after
    (e := .discovered [(nearby.peerId, [.socket "tcp" 4001])]) trivial
  have hnoticed := hdiscovered.tail (.notice (d := announcement) rfl rfl)
  rw [begin_announcement] at hnoticed
  have hanswered := hnoticed.tail (.answer (d := announcement) rfl)
  refine ⟨_, _, _, hanswered, .event _ (fun _ _ => .started) 0 trivial, ?_,
    (Run.refl _).tail (.actAsked (d := announcement) 0 rfl), ?_, ?_⟩
  · decide +kernel
  · decide +kernel
  · decide +kernel

end World

end KeyCustody.Host
