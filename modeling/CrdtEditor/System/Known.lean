import CrdtEditor.Session.Turns
import CrdtEditor.System.State

/-!
# System/Known — the operations the sessions know

Every operation in a system was made by one of its sessions, under an id that session drew.  So no
insert is made twice, and two inserts with one id are the same: `Known` is what the sessions keep
together, and a turn of one of them preserves it (`Known.turn`).

The ids of the clients that act hold none of the bytes that delimit a text somewhere on the way: a
newline, a bar or a NUL.
-/

namespace CrdtEditor

open Text

/-- A site id that every codec passes on whole. -/
def Plain (site : Str) : Prop := newline ∉ site ∧ bar ∉ site ∧ nul ∉ site

instance : DecidablePred Plain := fun _ => inferInstanceAs (Decidable (_ ∧ _ ∧ _))

theorem plain_root : Plain rootId.siteId := by decide

/-- An operation whose ids come from plain sites passes on whole. -/
theorem Operation.avoids_of_plain {op : Operation} (h : ∀ x ∈ op.names, Plain x.siteId) :
    op.Avoids newline ∧ op.Avoids bar ∧ op.Avoids nul := by
  have hsites : ∀ site ∈ op.sites, Plain site := fun site hs => by
    cases op with
    | insert oper =>
      obtain rfl | rfl : _ ∨ _ := by simpa [Operation.sites] using hs
      exacts [h oper.parent (by simp [Operation.names]), h oper.ident (by simp [Operation.names])]
    | remove oper =>
      obtain rfl := List.mem_singleton.1 hs
      exact h oper.theTarget (by simp [Operation.names])
  exact ⟨fun site hs => (hsites site hs).1, fun site hs => (hsites site hs).2.1,
    fun site hs => (hsites site hs).2.2⟩

namespace System

variable {s t : System} {id : Str}

/-- The operations in the sessions. -/
def known (s : System) : Set Operation := {op | ∃ id, op ∈ (s.session id).history}

/-- The client of the id has drawn it, or it is the root. -/
def Drawn (s : System) (x : ElementID) : Prop :=
  x.lamport ≤ (s.session x.siteId).gen.lamportClock

/-- **What the sessions keep together.**  A client whose id is not plain never acts. -/
structure Known (s : System) : Prop where
  sound : ∀ id, Plain id → (s.session id).Sound (s.session id).log.operationHistory
  idle : ∀ id, ¬ Plain id → s.session id = .start id
  clientId : ∀ id, (s.session id).clientId = id
  site : ∀ id, (s.session id).gen.clientId = id
  drawn : ∀ op ∈ s.known, ∀ x ∈ op.names, s.Drawn x
  plain : ∀ op ∈ s.known, ∀ x ∈ op.names, Plain x.siteId
  home : ∀ oper, .insert oper ∈ s.known →
    .insert oper ∈ (s.session oper.ident.siteId).history
  consistent : Operation.Consistent s.known

theorem known_start : start.Known := by
  have hnone : ∀ op, op ∉ start.known := fun op ⟨_, hop⟩ => List.not_mem_nil hop
  exact
    { sound := fun id hid => EditorSession.sound_start hid.2.1
      idle := fun _ _ => rfl
      clientId := fun _ => rfl
      site := fun _ => rfl
      drawn := fun op hop => absurd hop (hnone op)
      plain := fun op hop => absurd hop (hnone op)
      home := fun oper hop => absurd hop (hnone _)
      consistent := fun a _ ha => absurd ha (hnone _) }

/-- Systems with the same sessions, up to their queues, know the same. -/
theorem Known.congr (h : s.Known) (hhistory : ∀ id, (t.session id).log = (s.session id).log)
    (hgen : ∀ id, (t.session id).gen = (s.session id).gen)
    (hsound : ∀ id, Plain id → (t.session id).Sound (s.session id).log.operationHistory)
    (hidle : ∀ id, ¬ Plain id → t.session id = s.session id)
    (hid : ∀ id, (t.session id).clientId = (s.session id).clientId) : t.Known := by
  have hhist : ∀ id, (t.session id).history = (s.session id).history := fun id => by
    rw [EditorSession.history, EditorSession.history, hhistory]
  have hknown : t.known = s.known := Set.ext fun op => exists_congr fun id => by rw [hhist]
  exact
    { sound := fun id hp => hhistory id ▸ hsound id hp
      idle := fun id hp => (hidle id hp).trans (h.idle id hp)
      clientId := fun id => (hid id).trans (h.clientId id)
      site := fun id => by rw [hgen, h.site]
      drawn := fun op hop x hx => by
        rw [Drawn, hgen]
        exact h.drawn op (hknown ▸ hop) x hx
      plain := fun op hop => h.plain op (hknown ▸ hop)
      home := fun oper hop => by
        rw [hhist]
        exact h.home oper (hknown ▸ hop)
      consistent := hknown ▸ h.consistent }

/-- No clock is at its limit. -/
theorem Known.clock_lt (h : s.Known) (id : Str) :
    (s.session id).gen.lamportClock.toNat < 2 ^ 64 - 1 := by
  by_cases hp : Plain id
  · exact (h.sound id hp).bound
  · rw [h.idle id hp]
    exact (by decide : (0 : UInt64).toNat < 2 ^ 64 - 1)

theorem Known.lamport_lt (h : s.Known) {x : ElementID} (hx : s.Drawn x) :
    x.lamport.toNat < 2 ^ 64 - 1 :=
  (UInt64.le_iff_toNat_le.1 hx).trans_lt (h.clock_lt x.siteId)

theorem Known.avoids (h : s.Known) {op : Operation} (hop : op ∈ s.known) :
    op.Avoids newline ∧ op.Avoids bar ∧ op.Avoids nul :=
  Operation.avoids_of_plain (h.plain op hop)

/-- **A session can take whatever is known.** -/
theorem Known.honest (h : s.Known) {ops : List Operation} (hops : ∀ op ∈ ops, op ∈ s.known) :
    (s.session id).Honest ops where
  consistent := h.consistent.mono (Set.union_subset (fun _ hop => ⟨id, hop⟩) hops)
  avoids op hop := (h.avoids (hops op hop)).2.1
  lamport oper hop := h.lamport_lt (h.drawn _ (hops _ hop) oper.ident List.mem_cons_self)

/-- **An id that is drawn is new to everybody.** -/
theorem Known.upcoming_notMem (h : s.Known) (hid : Plain id) :
    ¬ s.Drawn (s.session id).gen.upcoming := fun hd => by
  have hlt := (h.sound id hid).lt_upcoming le_rfl
  have hsite : (s.session id).gen.upcoming.siteId = id := h.site id
  rw [Drawn, hsite] at hd
  exact absurd hlt (not_lt.2 hd)

theorem Known.fresh (h : s.Known) (hid : Plain id) :
    (s.session id).Fresh (s.session id).log.operationHistory := fun op hop hx =>
  h.upcoming_notMem hid (h.drawn op ⟨id, hop⟩ _ hx)

/-- What a session names was drawn at a plain site. -/
theorem Known.names (h : s.Known) {x : ElementID} (hx : (s.session id).Names x) :
    s.Drawn x ∧ Plain x.siteId := by
  obtain rfl | ⟨oper, ho, rfl⟩ := hx
  · exact ⟨UInt64.le_iff_toNat_le.2 (Nat.zero_le _), plain_root⟩
  · exact ⟨h.drawn _ ⟨id, ho⟩ _ List.mem_cons_self, h.plain _ ⟨id, ho⟩ _ List.mem_cons_self⟩

/-! ## A turn -/

/-- A system in which one session took a turn. -/
structure Turns (s : System) (id : Str) (taken own : List Operation) (ms : List Message)
    (t : System) : Prop where
  turn : (s.session id).Turn taken own ms (t.session id)
  others : ∀ k, k ≠ id → t.session k = s.session k

theorem Turns.drawn {taken own : List Operation} {ms : List Message} (h : s.Turns id taken own ms t)
    {x : ElementID} (hx : s.Drawn x) : t.Drawn x := by
  rw [Drawn] at hx ⊢
  by_cases he : x.siteId = id
  · rw [he] at hx ⊢
    exact hx.trans h.turn.clock
  · rwa [h.others _ he]

/-- What is known after a turn. -/
theorem Turns.mem_known {taken own : List Operation} {ms : List Message}
    (h : s.Turns id taken own ms t) (htaken : ∀ op ∈ taken, op ∈ s.known) (op : Operation) :
    op ∈ t.known ↔ op ∈ s.known ∨ op ∈ own := by
  refine ⟨fun ⟨k, hop⟩ => ?_, fun hor => ?_⟩
  · by_cases hk : k = id
    · subst hk
      rw [h.turn.history] at hop
      rcases hop with hop | hop | hop
      exacts [Or.inl ⟨k, hop⟩, Or.inl (htaken op hop), Or.inr hop]
    · rw [h.others k hk] at hop
      exact Or.inl ⟨k, hop⟩
  · rcases hor with ⟨k, hop⟩ | hop
    · by_cases hk : k = id
      · refine ⟨k, ?_⟩
        subst hk
        rw [h.turn.history]
        exact Or.inl hop
      · exact ⟨k, h.others k hk ▸ hop⟩
    · refine ⟨id, ?_⟩
      rw [h.turn.history]
      exact Or.inr (Or.inr hop)

/-- **A turn keeps what is known together.** -/
theorem Known.turn {taken own : List Operation} {ms : List Message} (h : s.Known) (hid : Plain id)
    (ht : s.Turns id taken own ms t) (htaken : ∀ op ∈ taken, op ∈ s.known) : t.Known := by
  have hmem := ht.mem_known htaken
  have hsound := h.sound id hid
  have hanchor : (s.session id).Names (s.session id).cursor.anchor :=
    hsound.names (hsound.tree.mem_of_mem_anchors hsound.anchor)
  -- what the session made names what it knew, and one id it drew
  have hown : ∀ op ∈ own, ∀ x ∈ op.names, t.Drawn x ∧ Plain x.siteId := by
    intro op hop x hx
    obtain ⟨c, rfl, hclock⟩ | hall := ht.turn.own
    · obtain rfl := List.mem_singleton.1 hop
      obtain rfl | rfl : _ ∨ _ := by simpa [Operation.names] using hx
      · have hsite : ((s.session id).typed c).ident.siteId = id := h.site id
        rw [Drawn, hsite]
        exact ⟨hclock ▸ le_rfl, hid⟩
      · obtain ⟨hd, hp⟩ := h.names hanchor
        exact ⟨ht.drawn hd, hp⟩
    · obtain ⟨y, hy, rfl⟩ := hall op hop
      obtain rfl := List.mem_singleton.1 hx
      obtain ⟨hd, hp⟩ := h.names hy
      exact ⟨ht.drawn hd, hp⟩
  have hinsert : ∀ oper, .insert oper ∈ own → oper.ident = (s.session id).gen.upcoming ∧
      ∀ oper', .insert oper' ∈ own → oper' = oper := fun oper hop => by
    obtain ⟨c, rfl, -⟩ | hall := ht.turn.own
    · have he := Operation.insert.inj (List.mem_singleton.1 hop)
      refine ⟨by rw [he]; rfl, fun oper' hop' => ?_⟩
      exact (Operation.insert.inj (List.mem_singleton.1 hop')).trans he.symm
    · obtain ⟨y, -, he⟩ := hall _ hop
      cases he
  have hold : ∀ oper, .insert oper ∈ s.known → oper.ident ≠ (s.session id).gen.upcoming :=
    fun oper hop he => h.upcoming_notMem hid (he ▸ h.drawn _ hop _ List.mem_cons_self)
  have hhistory : ∀ k, (s.session k).history ⊆ (t.session k).history := fun k op hop => by
    by_cases hk : k = id
    · subst hk
      rw [ht.turn.history]
      exact Or.inl hop
    · rwa [ht.others k hk]
  refine
    { sound := fun k hk => ?_
      idle := fun k hk => ?_
      clientId := fun k => ?_
      site := fun k => ?_
      drawn := fun op hop x hx => ?_
      plain := fun op hop x hx => ?_
      home := fun oper hop => ?_
      consistent := fun a b ha hb he => ?_ }
  · by_cases he : k = id
    · exact he ▸ ht.turn.sound
    · rw [ht.others k he]
      exact h.sound k hk
  · rw [ht.others k fun he => hk (he ▸ hid)]
    exact h.idle k hk
  · by_cases he : k = id
    · exact he ▸ ht.turn.clientId.trans (h.clientId id)
    · rw [ht.others k he]
      exact h.clientId k
  · by_cases he : k = id
    · exact he ▸ ht.turn.site.trans (h.site id)
    · rw [ht.others k he]
      exact h.site k
  · rcases (hmem op).1 hop with hop | hop
    · exact ht.drawn (h.drawn op hop x hx)
    · exact (hown op hop x hx).1
  · rcases (hmem op).1 hop with hop | hop
    · exact h.plain op hop x hx
    · exact (hown op hop x hx).2
  · rcases (hmem _).1 hop with hop | hop
    · exact hhistory _ (h.home oper hop)
    · have hsite : oper.ident.siteId = id := by
        rw [(hinsert oper hop).1]
        exact h.site id
      rw [hsite, ht.turn.history]
      exact Or.inr (Or.inr hop)
  · rcases (hmem _).1 ha with ha | ha <;> rcases (hmem _).1 hb with hb | hb
    · exact h.consistent a b ha hb he
    · exact absurd (he.trans (hinsert b hb).1) (hold a ha)
    · exact absurd (he.symm.trans (hinsert a ha).1) (hold b hb)
    · exact (hinsert b hb).2 a ha

end System

end CrdtEditor
