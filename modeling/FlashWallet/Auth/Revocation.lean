import FlashWallet.Proof.AuthRuns
import Mathlib.Logic.Relation

/-!
# What a revocation leaves

A refresh that finds its session gone lists the sessions of its user and deletes what it has listed. What
was in Redis when it listed is gone when it returns, and stays gone. What it does not see is a rotation
under way, whose old session is deleted before its new one is written; and a logout deletes the one
session of its token, not those that the token has been exchanged for.
-/

set_option autoImplicit false

namespace FlashWallet.Auth

open Lib

variable {env : Settings}

/-! ## Sessions and where they come from -/

def World.Live (w : World) (p : RefreshTokenPayload) : Prop :=
  ∃ row ∈ w.redis, row.key = refreshKey p.sub p.jti

instance (w : World) (p : RefreshTokenPayload) : Decidable (w.Live p) :=
  inferInstanceAs (Decidable (∃ row ∈ w.redis, row.key = refreshKey p.sub p.jti))

/-- The call that issues a statement in a step, and the statement. -/
def issuer? (s : Step State Event) : Option (Nat × Stmt) :=
  match s.label with
  | .exec i _ => (nextStmt? s.before s.label).map (i, ·)
  | _ => none

/-- Call `i` looks up session `p` in step `found`, and writes session `p'` in step `wrote`. -/
structure Rotates (tr : Trace) (p p' : RefreshTokenPayload) (i : Nat) (found wrote : Step State Event) :
    Prop where
  found_mem : found ∈ tr
  wrote_mem : wrote ∈ tr
  looks : issuer? found = some (i, .redisGet (refreshKey p.sub p.jti))
  writes : ∃ value seconds, issuer? wrote = some (i, .redisSet (refreshKey p'.sub p'.jti) value seconds)

/-- Call `b` has been answered. -/
def Answered (c : State) (b : Nat) : Prop := ∃ call, c.calls[b]? = some call ∧ call.result?.isSome

/-- The rotation does not straddle the revocation by call `b`: it has written before `b` lists, or looks
up after `b` has returned. -/
def ClearOf (tr : Trace) (b : Nat) (found wrote : Step State Event) : Prop :=
  (∃ listing pattern, issuer? listing = some (b, .redisKeys pattern) ∧ Precedes tr wrote listing) ∨
    Answered found.before b

/-- One session comes from another by a rotation. -/
def Descends (tr : Trace) (p p' : RefreshTokenPayload) : Prop :=
  ∃ i found wrote, Rotates tr p p' i found wrote

/-- One session comes from another by a rotation clear of `b`. -/
def DescendsClear (tr : Trace) (b : Nat) (p p' : RefreshTokenPayload) : Prop :=
  ∃ i found wrote, Rotates tr p p' i found wrote ∧ ClearOf tr b found wrote

/-- A pair with `token` in it has been returned. -/
def HandedOut (c : State) (token : String) : Prop :=
  ∃ call ∈ c.calls, ∃ access, call.result? = some (.ok (.tokens ⟨access, token⟩))

/-- Call `b` comes in with step `start`, presents `token`, which stands for session `q`, and is answered
`r`. -/
structure Presents (tr : Trace) (c : State) (b : Nat) (start : Step State Event) (request : Request)
    (token : String) (q : RefreshTokenPayload) (r : Except Err Response) : Prop where
  mem : start ∈ tr
  arrives : start.label = .arrive request
  place : start.before.calls.length = b
  answer : ∃ call, c.calls[b]? = some call ∧ call.result? = some r
  genuine : ∃ exp, c.world.jwt? token = some ⟨token, .refresh q, exp⟩

/-- Nothing revoked is left, in any way it could be. -/
def NothingLeft (tr : Trace) (c : State) : Prop :=
  (∀ b start token q, Presents tr c b start (.refresh token) token q (.error AuthService.reuseDetected) →
    ∀ p p', start.before.world.Live p → p.sub = q.sub → Relation.ReflTransGen (Descends tr) p p' →
      ¬c.world.Live p') ∧
  ∀ b start token q, Presents tr c b start (.logout token) token q (.ok .loggedOut) →
    HandedOut start.before token → ¬c.world.Live q ∧
      ∀ p' i found wrote, Rotates tr q p' i found wrote →
        (∃ s ∈ tr, i < s.before.calls.length ∧ ¬Answered s.before b) → ¬c.world.Live p'

/-- What a revocation does by design: a reuse leaves none of the user's sessions, nor any that come from
them by rotations clear of it; a logout ends its session, and nobody who looks it up later rotates it. -/
def Revoked (tr : Trace) (c : State) : Prop :=
  (∀ b start token q, Presents tr c b start (.refresh token) token q (.error AuthService.reuseDetected) →
    ∀ p p', start.before.world.Live p → p.sub = q.sub → Relation.ReflTransGen (DescendsClear tr b) p p' →
      ¬c.world.Live p') ∧
  ∀ b start token q, Presents tr c b start (.logout token) token q (.ok .loggedOut) →
    HandedOut start.before token → ¬c.world.Live q ∧
      ∀ p' i found wrote, Rotates tr q p' i found wrote → ¬Answered found.before b

/-! ## Reading a step -/

theorem issuer?_eq_some {s : Step State Event} {i : Nat} {o : Stmt} (h : issuer? s = some (i, o)) :
    ∃ x r k, s.label = .exec i x ∧ s.before.calls[i]? = some ⟨r, .call (S := sql) o k, false⟩ := by
  unfold issuer? at h
  split at h
  · rename_i j x hlabel
    obtain ⟨o', hnext, heq⟩ := Option.map_eq_some_iff.mp h
    cases heq
    rw [hlabel] at hnext
    simp only [nextStmt?] at hnext
    split at hnext
    · rename_i r o' k hcall
      cases hnext
      exact ⟨x, r, k, hlabel, hcall⟩
    · cases hnext
  · cases h

section

variable {ok : State → Event → Prop} {tr : Trace} {c : State}

/-- What is known of a state and its stages. -/
structure Known (env : Settings) (c : State) (gs : List Stage) : Prop where
  keyed : Keyed c gs
  aligned : Platform.Aligned (machine env).discipline Outcome c.calls gs

theorem known_of_run (hrun : RunFrom env State.initial ok tr c) : ∃ gs, Known env c gs := by
  obtain ⟨gs, hkeyed, ha⟩ := (keyed_staged ok).sound follows Keyed.initial .nil hrun
  exact ⟨gs, hkeyed, ha⟩

/-- A call issues `o` in a step: the stages before it and after it. -/
theorem Known.issue {s : Step State Event} {gs : List Stage} (hknown : Known env s.before gs) {i : Nat}
    {o : Stmt} (hissuer : issuer? s = some (i, o)) (hstep : (system env).step s.before s.label = some s.after) :
    ∃ r k g x reply, Issues env s.before gs i r o k g x reply s.after.world ∧
      Known env s.after (gs.set i (g.next o reply)) := by
  obtain ⟨x, r, k, hlabel, hi⟩ := issuer?_eq_some hissuer
  rw [hlabel] at hstep
  obtain ⟨r', o', k', reply, w, hi', hexec, hafter⟩ := (system env).step_exec hstep
  cases hi.symm.trans hi'
  obtain ⟨g, hg⟩ := hknown.aligned.books hi
  have hkeeps := hknown.aligned.keeps i _ g hi hg rfl
  have hissues : Issues env s.before gs i r o k g x reply w := ⟨hi, hg, hkeeps.1, hexec, hknown.aligned⟩
  refine ⟨r, k, g, x, reply, hafter ▸ hissues, ?_⟩
  rw [hafter]
  exact ⟨hknown.keyed.exec hissues,
    hknown.aligned.set fun _ => hkeeps.2 reply _ ⟨rfl, follows.replies i o x _ _ _ hexec⟩⟩

/-- What a call at stage `g` or one it leads to issues from now on. -/
theorem Known.issued_later {stays : Stage → Prop} {c₀ : State} {gs : List Stage} (hknown : Known env c₀ gs)
    (hlost : stays .lost) (hnext : ∀ g o r, stays g → May env g o → stays (g.next o r)) {i : Nat}
    {g : Stage} (hi : gs[i]? = some g) (hg : stays g) (hrun : RunFrom env c₀ ok tr c)
    {s : Step State Event} (hs : s ∈ tr) {o : Stmt} (hissuer : issuer? s = some (i, o)) :
    ∃ g', stays g' ∧ May env g' o := by
  obtain ⟨x, r, k, hlabel, hcall⟩ := issuer?_eq_some hissuer
  exact Platform.within_of_run follows hlost hnext hknown.aligned hi hg hrun s hs x r o k hlabel hcall

/-! ## A rotation by itself -/

/-- A step that writes a session is the last of its call. -/
theorem done_of_writes {g : Stage} {key value : String} {seconds : Nat}
    (may : May env g (.redisSet key value seconds)) (r : Except Err Unit) :
    (g.next (.redisSet key value seconds) r).saved.isSome ∨ g.next (.redisSet key value seconds) r = .lost := by
  cases may with
  | store => cases r <;> first | exact Or.inl rfl | exact Or.inr rfl

theorem stays_done {g : Stage} {o : Stmt} {r : Except Err o.Reply} (h : g.saved.isSome ∨ g = .lost)
    (may : May env g o) : (g.next o r).saved.isSome ∨ g.next o r = .lost := by
  cases may with
  | rollback => exact Or.inr rfl
  | _ => rcases h with h | h <;> cases h

theorem Rotates.precedes {p p' : RefreshTokenPayload} {i : Nat} {found wrote : Step State Event}
    (h : Rotates tr p p' i found wrote) (hrun : RunFrom env State.initial ok tr c) :
    Precedes tr found wrote := by
  obtain ⟨value, seconds, hwrites⟩ := h.writes
  rcases precedes_or h.found_mem h.wrote_mem with rfl | hbefore | hafter
  · rw [h.looks] at hwrites
    cases hwrites
  · exact hbefore
  · -- a call that has written looks nothing up
    obtain ⟨tr₁, tr₂, hrun₁, -, hstep, hrun₂, hmem⟩ := hrun.of_precedes hafter
    obtain ⟨gs, hknown⟩ := known_of_run hrun₁
    obtain ⟨r, k, g, x, reply, hissues, hknown'⟩ := hknown.issue hwrites hstep
    have hlt := (List.getElem?_eq_some_iff.mp hissues.stage).1
    obtain ⟨g', hdone, hmay⟩ := hknown'.issued_later (Or.inr rfl) (fun _ _ _ => stays_done)
      (List.getElem?_set_self hlt) (done_of_writes hissues.may reply) hrun₂ hmem h.looks
    obtain ⟨s, rfl, -⟩ := hmay.look_inv
    rcases hdone with hdone | hdone <;> cases hdone

/-- Whose session a call is about. -/
def Stage.owner : Stage → Option Uuid
  | .verified s | .missed s | .listed s _ | .revoked s | .held s | .rotating s | .leaving s | .left s =>
    some s.payload.sub
  | .issuing _ sub | .named _ sub _ | .signed _ sub _ _ | .stored _ sub _ _ => some sub
  | .entered _ | .rejected _ | .lost => none

theorem owner_next {g : Stage} {o : Stmt} {r : Except Err o.Reply} {sub : Uuid}
    (h : g.owner = some sub ∨ g = .lost) (may : May env g o) :
    (g.next o r).owner = some sub ∨ g.next o r = .lost := by
  rcases h with h | rfl
  · cases may with
    | look s =>
      rcases next_look s r with ⟨hnext, -⟩ | hnext | hnext <;> rw [hnext] <;>
        first | exact Or.inl h | exact Or.inr rfl
    | list s =>
      rcases next_list s _ r with ⟨_, -, hnext⟩ | ⟨-, hnext⟩ | hnext <;> rw [hnext] <;>
        first | exact Or.inl h | exact Or.inr rfl
    | rollback => exact Or.inr rfl
    | _ => cases r <;> first | exact Or.inl h | exact Or.inr rfl | cases h
  · cases may with
    | rollback => exact Or.inr rfl

/-- A rotation keeps to its user. -/
theorem Rotates.sub_eq {p p' : RefreshTokenPayload} {i : Nat} {found wrote : Step State Event}
    (h : Rotates tr p p' i found wrote) (hrun : RunFrom env State.initial ok tr c) : p'.sub = p.sub := by
  obtain ⟨value, seconds, hwrites⟩ := h.writes
  obtain ⟨tr₁, tr₂, hrun₁, -, hstep, hrun₂, hmem⟩ := hrun.of_precedes (h.precedes hrun)
  obtain ⟨gs, hknown⟩ := known_of_run hrun₁
  obtain ⟨r, k, g, x, reply, hissues, hknown'⟩ := hknown.issue h.looks hstep
  have howner : g.owner = some p.sub := by
    obtain ⟨s, rfl, hkey⟩ := May.look_inv hissues.may
    rw [(refreshKey_inj hkey).1]
    rfl
  have hlt := (List.getElem?_eq_some_iff.mp hissues.stage).1
  obtain ⟨g', hg', hmay⟩ := hknown'.issued_later (Or.inr rfl) (fun _ _ _ => owner_next)
    (List.getElem?_set_self hlt) (owner_next (Or.inl howner) hissues.may) hrun₂ hmem hwrites
  obtain ⟨source, sub, jti, token, rfl, hkey, -⟩ := hmay.store_inv
  rw [(refreshKey_inj hkey).1]
  rcases hg' with hg' | hg'
  · exact Option.some.inj hg'
  · cases hg'

/-- Stages of a call that lists no more. -/
def Stage.swept : Stage → Prop
  | .listed .. | .revoked _ | .left _ | .lost => True
  | _ => False

theorem swept_next {g : Stage} {o : Stmt} {r : Except Err o.Reply} (h : g.swept) (may : May env g o) :
    (g.next o r).swept := by
  cases may with
  | revoke => cases r <;> trivial
  | rollback => trivial
  | _ => exact h.elim

/-- Stages of a call that has looked a session up in vain. -/
def Stage.barren (g : Stage) : Prop := (∃ s, g = .missed s) ∨ g.swept

theorem barren_next {g : Stage} {o : Stmt} {r : Except Err o.Reply} (h : g.barren) (may : May env g o) :
    (g.next o r).barren := by
  rcases h with ⟨s, rfl⟩ | h
  · cases may with
    | list =>
      rcases next_list s _ r with ⟨_, -, hnext⟩ | ⟨-, hnext⟩ | hnext <;> rw [hnext] <;> exact Or.inr trivial
  · exact Or.inr (swept_next h may)

/-- Only a session that is there is rotated. -/
theorem Rotates.live {p p' : RefreshTokenPayload} {i : Nat} {found wrote : Step State Event}
    (h : Rotates tr p p' i found wrote) (hrun : RunFrom env State.initial ok tr c) :
    found.before.world.Live p := by
  by_contra hgone
  obtain ⟨value, seconds, hwrites⟩ := h.writes
  obtain ⟨tr₁, tr₂, hrun₁, -, hstep, hrun₂, hmem⟩ := hrun.of_precedes (h.precedes hrun)
  obtain ⟨gs, hknown⟩ := known_of_run hrun₁
  obtain ⟨r, k, g, x, reply, hissues, hknown'⟩ := hknown.issue h.looks hstep
  have hbarren : (g.next (.redisGet (refreshKey p.sub p.jti)) reply).barren := by
    obtain ⟨s, rfl, hkey⟩ := May.look_inv hissues.may
    have hlook := next_look s reply
    rw [← hkey] at hlook
    rcases hlook with ⟨-, hfinds⟩ | hnext | hnext
    · exact absurd (World.finds_served (served_of_issues hissues) hfinds).1 hgone
    · exact Or.inl ⟨s, hnext⟩
    · exact hnext ▸ Or.inr trivial
  have hlt := (List.getElem?_eq_some_iff.mp hissues.stage).1
  obtain ⟨g', hg', hmay⟩ := hknown'.issued_later (Or.inr trivial) (fun _ _ _ => barren_next)
    (List.getElem?_set_self hlt) hbarren hrun₂ hmem hwrites
  obtain ⟨source, sub, jti, token, rfl, -⟩ := hmay.store_inv
  rcases hg' with ⟨s, hg'⟩ | hg'
  · cases hg'
  · exact hg'

/-! ## A revocation by itself -/

/-- What a call that revokes, or logs out, has to show for a session that is settled. -/
def Sweeps (w : World) (p : RefreshTokenPayload) : Stage → Prop
  | .listed s keys => s.payload.sub = p.sub → w.Live p → refreshKey p.sub p.jti ∈ keys
  | .revoked s => s.payload.sub = p.sub → ¬w.Live p
  | .left s => s.payload = p → ¬w.Live p
  | _ => True

theorem Sweeps.mono {w w' : World} {p : RefreshTokenPayload} {g : Stage} (h : Sweeps w p g)
    (hlive : w'.Live p → w.Live p) : Sweeps w' p g := by
  cases g with
  | listed s keys => exact fun hsub hw' => h hsub (hlive hw')
  | revoked s => exact fun hsub hw' => h hsub (hlive hw')
  | left s => exact fun hp hw' => h hp (hlive hw')
  | _ => trivial

theorem not_live {w : World} {p : RefreshTokenPayload} :
    ¬w.Live p ↔ ∀ row ∈ w.redis, row.key ≠ refreshKey p.sub p.jti :=
  ⟨fun h row hrow hkey => h ⟨row, hrow, hkey⟩, fun h ⟨row, hrow, hkey⟩ => h row hrow hkey⟩

theorem not_live_redisDel {w : World} {p : RefreshTokenPayload} {keys : List String}
    (h : w.Live p → refreshKey p.sub p.jti ∈ keys) : ¬(w.redisDel keys).Live p := by
  rintro ⟨row, hrow, hkey⟩
  obtain ⟨hrow, hkept⟩ := List.mem_filter.mp hrow
  have hmem := h ⟨row, hrow, hkey⟩
  simp [hkey, hmem] at hkept

/-- A user's listing has every session of the user. -/
theorem mem_redisKeys {w : World} {p : RefreshTokenPayload} {sub : Uuid} (hsub : sub = p.sub)
    (h : w.Live p) : refreshKey p.sub p.jti ∈ w.redisKeys (refreshPattern sub) := by
  obtain ⟨row, hrow, hkey⟩ := h
  refine List.mem_filter.mpr ⟨List.mem_map.mpr ⟨row, hrow, hkey⟩, ?_⟩
  exact (isMatch_refreshKey sub p.sub p.jti).mpr hsub.symm

theorem sweeps_next {gs : List Stage} {i : Nat} {r : Request} {o : Stmt}
    {k : Except Err o.Reply → Service Response} {g : Stage} {x : Choice} {reply : Except Err o.Reply}
    {w : World} {p : RefreshTokenPayload} (hissues : Issues env c gs i r o k g x reply w)
    (h : Sweeps c.world p g) : Sweeps w p (g.next o reply) := by
  have hs := served_of_issues hissues
  have hmay : May env g o := hissues.may
  cases hmay with
  | look s =>
    rcases next_look s reply with ⟨hnext, -⟩ | hnext | hnext <;> rw [hnext] <;> trivial
  | list s =>
    rcases next_list s _ reply with ⟨keys, rfl, hnext⟩ | ⟨rfl, hnext⟩ | hnext <;> rw [hnext]
    · obtain ⟨rfl, rfl⟩ := World.lists_served hs
      exact mem_redisKeys
    · obtain ⟨hnone, rfl⟩ := World.lists_served hs
      intro hsub hlive
      have hmem := mem_redisKeys hsub hlive
      rw [← hnone] at hmem
      cases hmem
    · trivial
  | revoke s keys =>
    cases reply with
    | error e => trivial
    | ok n =>
      obtain rfl : w = c.world.redisDel keys := World.deletes_served hs rfl
      exact fun hsub => not_live_redisDel (h hsub)
  | leave s =>
    cases reply with
    | error e => trivial
    | ok n =>
      obtain rfl : w = c.world.redisDel [s.key] := World.deletes_served hs rfl
      rintro rfl
      exact not_live_redisDel fun _ => List.mem_cons_self
  | _ => cases reply <;> trivial

/-- A settled session and the call that revokes it. -/
theorem sweeping_staged (ok : State → Event → Prop) (b : Nat) (p : RefreshTokenPayload) :
    Platform.Staged (system env) (stages env) ok fun _ c gs => Keyed c gs ∧ Settled c gs p.jti ∧
      ∀ g, gs[b]? = some g → Sweeps c.world p g where
  arrive tr c gs r hlen h hok := by
    obtain ⟨hkeyed, hsettled, hsweeps⟩ := h
    refine ⟨hkeyed.arrive hlen r, hsettled.arrive r, fun g hg => ?_⟩
    rcases Platform.getElem?_concat_cases hg with ⟨-, rfl⟩ | hg
    · trivial
    · exact hsweeps g hg
  exec tr c gs i r o k g x reply w h hok hissues := by
    obtain ⟨hkeyed, hsettled, hsweeps⟩ := h
    refine ⟨hkeyed.exec hissues, hsettled.exec hissues, fun g' hg' => ?_⟩
    rcases Platform.getElem?_set_cases hg' with ⟨rfl, rfl⟩ | ⟨-, hg'⟩
    · exact sweeps_next hissues (hsweeps g hissues.stage)
    · refine (hsweeps g' hg').mono fun hlive => ?_
      by_contra hgone
      exact not_live.mpr (hkeyed.stays_gone hissues hsettled (not_live.mp hgone)) hlive
  crash tr c gs i r o k g hlen h hok hi hg := by
    obtain ⟨hkeyed, hsettled, hsweeps⟩ := h
    refine ⟨hkeyed.crash i r o k, hsettled.cut i, fun g' hg' => ?_⟩
    rcases Platform.getElem?_set_cases hg' with ⟨rfl, rfl⟩ | ⟨-, hg'⟩
    · trivial
    · exact hsweeps g' hg'
  env tr c gs e w hlen h hok he := by
    obtain ⟨hkeyed, hsettled, hsweeps⟩ := h
    refine ⟨hkeyed.moved he, hsettled.moved he, fun g hg => ?_⟩
    refine (hsweeps g hg).mono fun hlive => ?_
    by_contra hgone
    exact not_live.mpr (gone_moved he (not_live.mp hgone)) hlive

/-! ## What a revocation finds -/

/-- Session `p` is settled when step `e` has been taken, and call `b` has yet to list. -/
structure Ahead (env : Settings) (b : Nat) (p : RefreshTokenPayload) (e : Step State Event) : Prop where
  known : ∃ gs, Known env e.after gs ∧ Settled e.after gs p.jti ∧ ∀ g, gs[b]? = some g → ¬g.swept
  unanswered : ¬Answered e.after b

theorem sweeps_of_not_swept {w : World} {p : RefreshTokenPayload} {g : Stage} (h : ¬g.swept) :
    Sweeps w p g := by
  cases g with
  | listed | revoked | left => exact absurd trivial h
  | _ => trivial

/-- What is ahead of a revocation it sweeps. -/
theorem Ahead.sweeps {b : Nat} {p : RefreshTokenPayload} {e : Step State Event} (h : Ahead env b p e)
    {ok : State → Event → Prop} {tr : Trace} {c : State} (hrun : RunFrom env e.after ok tr c) :
    ∃ gs, Known env c gs ∧ ∀ g, gs[b]? = some g → Sweeps c.world p g := by
  obtain ⟨gs₀, hknown, hsettled, hswept⟩ := h.known
  obtain ⟨gs, ⟨hkeyed, -, hsweeps⟩, ha⟩ := (sweeping_staged ok b p).sound follows
    ⟨hknown.keyed, hsettled, fun g hg => sweeps_of_not_swept (hswept g hg)⟩ hknown.aligned hrun
  exact ⟨gs, ⟨hkeyed, ha⟩, hsweeps⟩

theorem answered_mono {c₀ : State} {b : Nat} (h : Answered c₀ b) (hrun : RunFrom env c₀ ok tr c) :
    Answered c b :=
  let ⟨call, hcall, hanswered⟩ := h
  ⟨call, (system env).answered_of_run hrun hcall hanswered, hanswered⟩

/-- A step that finds `b` answered comes after one that does not leave it so. -/
theorem Ahead.precedes {b : Nat} {p : RefreshTokenPayload} {e s : Step State Event} (h : Ahead env b p e)
    (hrun : RunFrom env State.initial ok tr c) (he : e ∈ tr) (hs : s ∈ tr) (hanswered : Answered s.before b) :
    Precedes tr e s := by
  rcases precedes_or he hs with rfl | hbefore | hlater
  · obtain ⟨-, hok, hstep⟩ := hrun.of_mem he
    exact absurd (answered_mono hanswered (Run.single hok hstep)) h.unanswered
  · exact hbefore
  · obtain ⟨-, hok, hstep⟩ := hrun.of_mem hs
    obtain ⟨-, hok', hstep'⟩ := hrun.of_mem he
    obtain ⟨tr₁, tr₂, hbetween, -⟩ := hrun.between hlater
    have hwhole := ((Run.single hok hstep).append hbetween).snoc hok' hstep'
    exact absurd (answered_mono hanswered hwhole) h.unanswered

section

variable {b : Nat} {p q : RefreshTokenPayload} {e start : Step State Event} {request : Request}
  {token : String} {r : Except Err Response}

theorem Presents.request_eq (h : Presents tr c b start request token q r)
    (hrun : RunFrom env State.initial ok tr c) :
    ∃ call, c.calls[b]? = some call ∧ call.request = request ∧ call.result? = some r := by
  obtain ⟨call, hcall, hresult⟩ := h.answer
  obtain ⟨tr₁, tr₂, -, -, -, hstep, hrest⟩ := hrun.split h.mem
  rw [h.arrives] at hstep
  have hafter : (system env).arrive start.before request = start.after := Option.some.inj hstep
  have hnew : start.after.calls[b]? = some ⟨request, request.handler env, false⟩ := by
    rw [← hafter, ← h.place]
    exact List.getElem?_concat_length
  obtain ⟨call', hcall', hrequest⟩ := ((system env).keeps_of_run hrest).1 b _ hnew
  obtain rfl := Option.some.inj (hcall.symm.trans hcall')
  exact ⟨call, hcall, hrequest, hresult⟩

/-- When a call that sweeps has been answered, its stage is that of its answer. -/
theorem Ahead.ended (h : Ahead env b p e) (hpresents : Presents tr c b start request token q r)
    (hrun : RunFrom env State.initial ok tr c) {tr₂ tr₃ : Trace} {c₂ : State}
    (hrun₂ : RunFrom env e.after ok tr₂ c₂) (hanswered : Answered c₂ b) (hrun₃ : RunFrom env c₂ ok tr₃ c) :
    ∃ g, Outcome request r g ∧ Sweeps c₂.world p g ∧
      ∀ s, g.presented = some s → s.token = token → s.payload = q := by
  obtain ⟨gs, hknown, hbound⟩ := h.sweeps hrun₂
  obtain ⟨call, hcall, hsome⟩ := hanswered
  obtain ⟨call', hcall', hrequest, hresult⟩ := hpresents.request_eq hrun
  obtain rfl := Option.some.inj (((system env).answered_of_run hrun₃ hcall hsome).symm.trans hcall')
  obtain ⟨g, hg⟩ := hknown.aligned.books hcall
  have hends : Outcome call.request r g := hknown.aligned.outcome hcall hg hresult
  refine ⟨g, hrequest ▸ hends, hbound g hg, ?_⟩
  rintro ⟨token', payload⟩ hs rfl
  obtain ⟨exp, hjwt⟩ := hknown.keyed.presented b g _ hg hs
  obtain ⟨exp', hjwt'⟩ := hpresents.genuine
  cases (jwt?_of_run hrun₃ hjwt).symm.trans hjwt'
  rfl

/-- The step in which a call comes in is ahead of what the call sweeps, if it leaves the session settled. -/
theorem Presents.ahead (h : Presents tr c b start request token q r)
    (hrun : RunFrom env State.initial ok tr c) (hopen : ∃ o k, request.handler env = .call o k)
    (hsettled : ∀ gs, Known env start.before gs → Settled start.before gs p.jti) : Ahead env b p start := by
  obtain ⟨tr₁, tr₂, -, hbefore, hok, hstep, -⟩ := hrun.split h.mem
  obtain ⟨gs, hknown⟩ := known_of_run hbefore
  rw [h.arrives] at hstep
  have hafter : start.after = (system env).arrive start.before request := (Option.some.inj hstep).symm
  have hlen : gs.length = b := hknown.aligned.length.trans h.place
  refine ⟨⟨gs ++ [.entered request], ?_, ?_, fun g hg => ?_⟩, ?_⟩
  · rw [hafter]
    exact ⟨hknown.keyed.arrive hknown.aligned.length request,
      hknown.aligned.arrive fun _ => handler_stages request⟩
  · exact hafter ▸ (hsettled gs hknown).arrive request
  · rw [← hlen, List.getElem?_concat_length] at hg
    cases hg
    exact id
  · rintro ⟨call, hcall, hanswered⟩
    obtain ⟨o, k, hprog⟩ := hopen
    have hnew : start.after.calls[b]? = some ⟨request, request.handler env, false⟩ := by
      rw [hafter, ← h.place]
      exact List.getElem?_concat_length
    cases hnew.symm.trans hcall
    rw [Call.result?, hprog] at hanswered
    cases hanswered

end

theorem Known.settled_of_live {s : State} {gs : List Stage} (h : Known env s gs) {p : RefreshTokenPayload}
    (hlive : s.world.Live p) : Settled s gs p.jti := by
  obtain ⟨row, hrow, hkey⟩ := hlive
  obtain ⟨sub, jti, hkey', -, hsettled⟩ := h.keyed.rows row hrow (hkey ▸ isSession_refreshKey p.sub p.jti)
  rwa [(refreshKey_inj (hkey.symm.trans hkey')).2]

/-- A rotation that has written before `b` lists is ahead of `b`. -/
theorem Rotates.ahead {b : Nat} {p p' : RefreshTokenPayload} {i : Nat} {found wrote listing : Step State Event}
    {pattern : String} (h : Rotates tr p p' i found wrote) (hrun : RunFrom env State.initial ok tr c)
    (hlists : issuer? listing = some (b, .redisKeys pattern)) (hfirst : Precedes tr wrote listing) :
    Ahead env b p' wrote := by
  obtain ⟨value, seconds, hwrites⟩ := h.writes
  obtain ⟨tr₁, tr₂, hrun₁, -, hstep, hrun₂, hmem⟩ := hrun.of_precedes hfirst
  obtain ⟨gs, hknown⟩ := known_of_run hrun₁
  obtain ⟨r, k, g, x, reply, hissues, hknown'⟩ := hknown.issue hwrites hstep
  refine ⟨⟨_, hknown', ?_, fun g' hg' hswept => ?_⟩, ?_⟩
  · obtain ⟨source, sub, jti, token, -, hkey, -, hsettled⟩ :=
      hknown.keyed.written wrote.after.calls hissues rfl
    obtain ⟨-, rfl⟩ := refreshKey_inj hkey
    exact hsettled
  · -- who has listed does not list again
    obtain ⟨g'', hg'', hmay⟩ := hknown'.issued_later trivial (fun _ _ _ => swept_next) hg' hswept hrun₂ hmem
      hlists
    obtain ⟨s, rfl, -⟩ := hmay.list_inv
    exact hg''
  · -- nor does who has been answered
    rintro ⟨call, hcall, hanswered⟩
    obtain ⟨x, r', k', -, hlisting⟩ := issuer?_eq_some hlists
    obtain ⟨tr₃, tr₄, hbetween, -⟩ := hrun.between hfirst
    cases ((system env).answered_of_run hbetween hcall hanswered).symm.trans hlisting
    cases hanswered

/-- What a session has to be for an answer `r` to `request` to be the end of it. -/
def EndedBy (token : String) (q : RefreshTokenPayload) (request : Request) (r : Except Err Response)
    (p : RefreshTokenPayload) : Prop :=
  ∀ w g, Outcome request r g → Sweeps w p g →
    (∀ s : Presented, g.presented = some s → s.token = token → s.payload = q) → ¬w.Live p

section

variable {b : Nat} {p p' q : RefreshTokenPayload} {e start : Step State Event} {request : Request}
  {token : String} {r : Except Err Response}

/-- What was ahead of a call that ends it is gone once the call has been answered. -/
theorem Ahead.gone (h : Ahead env b p e) (hpresents : Presents tr c b start request token q r)
    (hrun : RunFrom env State.initial ok tr c) (hended : EndedBy token q request r p) {tr₂ tr₃ : Trace}
    {c₂ : State} (hrun₂ : RunFrom env e.after ok tr₂ c₂) (hanswered : Answered c₂ b)
    (hrun₃ : RunFrom env c₂ ok tr₃ c) : ¬c₂.world.Live p := by
  obtain ⟨g, hends, hbound, hpayload⟩ := h.ended hpresents hrun hrun₂ hanswered hrun₃
  exact hended _ g hends hbound hpayload

/-- In the end it is gone. -/
theorem Ahead.gone_finally (h : Ahead env b p e) (hpresents : Presents tr c b start request token q r)
    (hrun : RunFrom env State.initial ok tr c) (he : e ∈ tr) (hended : EndedBy token q request r p) :
    ¬c.world.Live p := by
  obtain ⟨tr₁, tr₂, -, -, -, -, hrest⟩ := hrun.split he
  obtain ⟨call, hcall, hresult⟩ := hpresents.answer
  exact h.gone hpresents hrun hended hrest ⟨call, hcall, by rw [hresult]; rfl⟩ .nil

/-- And nobody finds it from then on, to rotate it. -/
theorem Ahead.unrotated (h : Ahead env b p e) (hpresents : Presents tr c b start request token q r)
    (hrun : RunFrom env State.initial ok tr c) (he : e ∈ tr) (hended : EndedBy token q request r p)
    {i : Nat} {found wrote : Step State Event} (hrotates : Rotates tr p p' i found wrote) :
    ¬Answered found.before b := by
  intro hanswered
  obtain ⟨tr₂, tr₃, hrun₂, hrun₃⟩ := hrun.between (h.precedes hrun he hrotates.found_mem hanswered)
  exact h.gone hpresents hrun hended hrun₂ hanswered hrun₃ (hrotates.live hrun)

end

/-- A reuse leaves none of the sessions it is about. -/
theorem endedBy_reuse {token : String} {p q : RefreshTokenPayload} (hsub : p.sub = q.sub) :
    EndedBy token q (.refresh token) (.error AuthService.reuseDetected) p := by
  intro w g hends hsweeps hpayload
  generalize hr : (Except.error AuthService.reuseDetected : Except Err Response) = r at hends
  cases hends with
  | revoked s => exact hsweeps ((congrArg RefreshTokenPayload.sub (hpayload s rfl rfl)).trans hsub.symm)
  | gaveUp _ e _ _ unrelated => exact absurd (Except.error.inj hr).symm unrelated
  | refusedRefresh => simp [AuthService.reuseDetected] at hr
  | refreshed => cases hr

/-- A logout does not leave its session. -/
theorem endedBy_logout {token : String} {q : RefreshTokenPayload} :
    EndedBy token q (.logout token) (.ok .loggedOut) q := by
  intro w g hends hsweeps hpayload
  cases hends with
  | loggedOut s => exact hsweeps (hpayload s rfl rfl)

/-- Where a chain of rotations clear of a reuse leads is ahead of it still. -/
theorem ahead_of_descends {b : Nat} {start : Step State Event} {token : String} {p p' q : RefreshTokenPayload}
    (hpresents : Presents tr c b start (.refresh token) token q (.error AuthService.reuseDetected))
    (hrun : RunFrom env State.initial ok tr c) (hlive : start.before.world.Live p) (hsub : p.sub = q.sub)
    (hchain : Relation.ReflTransGen (DescendsClear tr b) p p') :
    p'.sub = q.sub ∧ ∃ e ∈ tr, Ahead env b p' e := by
  induction hchain with
  | refl =>
    exact ⟨hsub, start, hpresents.mem,
      hpresents.ahead hrun ⟨_, _, rfl⟩ fun gs hknown => hknown.settled_of_live hlive⟩
  | @tail mid p' _ hstep ih =>
    obtain ⟨hmid, e, he, hahead⟩ := ih
    obtain ⟨i, found, wrote, hrotates, hclear⟩ := hstep
    rcases hclear with ⟨listing, pattern, hlists, hfirst⟩ | hanswered
    · exact ⟨(hrotates.sub_eq hrun).trans hmid, wrote, hrotates.wrote_mem, hrotates.ahead hrun hlists hfirst⟩
    · exact absurd hanswered (hahead.unrotated hpresents hrun he (endedBy_reuse hmid) hrotates)

/-- The session of a token that was returned has been stored. -/
theorem Known.settled_of_handed {s : State} {gs : List Stage} (h : Known env s gs) {token : String}
    (hhanded : HandedOut s token) :
    ∃ payload exp, s.world.jwt? token = some ⟨token, .refresh payload, exp⟩ ∧ Settled s gs payload.jti := by
  obtain ⟨call, hmem, access, hresult⟩ := hhanded
  obtain ⟨i, hi⟩ := List.mem_iff_getElem?.mp hmem
  obtain ⟨g, hg⟩ := h.aligned.books hi
  have hstored : ∃ source sub jti, g = .stored source sub jti token := by
    have hends : Outcome call.request (.ok (.tokens ⟨access, token⟩)) g := h.aligned.outcome hi hg hresult
    generalize call.request = request at hends
    generalize hr : (Except.ok (.tokens ⟨access, token⟩) : Except Err Response) = r at hends
    cases hends with
    | registered | loggedIn | refreshed => cases hr; exact ⟨_, _, _, rfl⟩
    | _ => cases hr
  obtain ⟨source, sub, jti, rfl⟩ := hstored
  obtain ⟨exp, hjwt⟩ := h.keyed.minted i _ sub jti token hg rfl
  exact ⟨⟨sub, jti⟩, exp, hjwt, h.keyed.saved i _ jti hg rfl⟩

/-- **Revocation**: what a reuse has seen, and what came of it clear of the revocation, is gone when the
reuse is answered; a logout's session is gone, and found by nobody from then on. -/
theorem revocation_final (hrun : RunFrom env State.initial ok tr c) : Revoked tr c := by
  refine ⟨fun b start token q hpresents p p' hlive hsub hchain => ?_,
    fun b start token q hpresents hhanded => ?_⟩
  · obtain ⟨hsub', e, he, hahead⟩ := ahead_of_descends hpresents hrun hlive hsub hchain
    exact hahead.gone_finally hpresents hrun he (endedBy_reuse hsub')
  · have hahead : Ahead env b q start := by
      refine hpresents.ahead hrun ⟨_, _, rfl⟩ fun gs hknown => ?_
      obtain ⟨payload, exp, hjwt, hsettled⟩ := hknown.settled_of_handed hhanded
      obtain ⟨tr₁, tr₂, -, -, hok, hstep, hrest⟩ := hrun.split hpresents.mem
      obtain ⟨exp', hjwt'⟩ := hpresents.genuine
      cases (jwt?_of_run ((Run.single hok hstep).append hrest) hjwt).symm.trans hjwt'
      exact hsettled
    exact ⟨hahead.gone_finally hpresents hrun hpresents.mem endedBy_logout, fun p' i found wrote hrotates =>
      hahead.unrotated hpresents hrun hpresents.mem endedBy_logout hrotates⟩

end

section

open Trial

/-- Alice's token is refreshed, and then used again; the token it was refreshed to is logged out. -/
def revoked : List Event :=
  register ++ looks 1 "first" ++ rotates 1 ++ issues 1 jti₂ "second" ++ looks 2 "first" ++ proceeds 2 2 ++
    [.arrive (.logout "second")] ++ proceeds 3 2

set_option maxRecDepth 8000 in
theorem revocation_final_revoked :
    ((stateAfter settings revoked).calls.map Call.result? =
      [some (.ok (.tokens ⟨"access for first", "first"⟩)),
        some (.ok (.tokens ⟨"access for second", "second"⟩)), some (.error AuthService.reuseDetected),
        some (.ok .loggedOut)]) ∧
      Revoked (traceAfter settings revoked) (stateAfter settings revoked) :=
  ⟨by decide, revocation_final (run_stateAfter settings (fun _ _ => true) revoked (by decide))⟩

theorem exists_step {α : Type} {tr : Trace} {n : Nat} {f : Step State Event → α} {a : α}
    (h : tr[n]?.map f = some a) : ∃ s ∈ tr, f s = a := by
  obtain ⟨s, hs, rfl⟩ := Option.map_eq_some_iff.mp h
  exact ⟨s, List.mem_of_getElem? hs, rfl⟩

/-- What a step of a logout or a reuse shows. -/
def glance (p : RefreshTokenPayload) (s : Step State Event) : Event × List (Option (Except Err Response)) × Bool :=
  (s.label, s.before.calls.map Call.result?, decide (s.before.world.Live p))

/-- Alice's second token is being refreshed when the use of her first is found out. -/
def outrun : List Event :=
  register ++ looks 1 "first" ++ rotates 1 ++ issues 1 jti₂ "second" ++ looks 2 "second" ++
    looks 3 "first" ++ proceeds 3 2 ++ rotates 2 ++ issues 2 jti₃ "third"

/-- Alice's first token is logged out, after it has been refreshed to a second. -/
def outlived : List Event :=
  register ++ looks 1 "first" ++ rotates 1 ++ issues 1 jti₂ "second" ++ [.arrive (.logout "first")] ++ proceeds 2 2

set_option maxRecDepth 8000 in
/-- The rotation under way is not seen: its new session outlives the revocation. -/
theorem left_outrun : ¬NothingLeft (traceAfter settings outrun) (stateAfter settings outrun) := by
  intro h
  have hstart : (traceAfter settings outrun)[22]?.map (glance ⟨alice, jti₂⟩) =
      some (.arrive (.refresh "first"), [some (.ok (.tokens ⟨"access for first", "first"⟩)),
        some (.ok (.tokens ⟨"access for second", "second"⟩)), none], true) := by decide
  have hfound : (traceAfter settings outrun)[21]?.map issuer? =
      some (some (2, .redisGet (refreshKey alice jti₂))) := by decide
  have hwrote : (traceAfter settings outrun)[32]?.map issuer? =
      some (some (2, .redisSet (refreshKey alice jti₃) "1" 604800)) := by decide
  have hanswer : (stateAfter settings outrun).calls[3]?.map Call.result? =
      some (some (.error AuthService.reuseDetected)) := by decide
  obtain ⟨start, hstart, hglance⟩ := exists_step hstart
  obtain ⟨harrives, hglance⟩ := Prod.mk.inj hglance
  obtain ⟨hcalls, hlive⟩ := Prod.mk.inj hglance
  obtain ⟨found, hfound, hlooks⟩ := exists_step hfound
  obtain ⟨wrote, hwrote, hwrites⟩ := exists_step hwrote
  have hpresents : Presents (traceAfter settings outrun) (stateAfter settings outrun) 3 start
      (.refresh "first") "first" ⟨alice, jti₁⟩ (.error AuthService.reuseDetected) :=
    ⟨hstart, harrives, by simpa using congrArg List.length hcalls, Option.map_eq_some_iff.mp hanswer,
      604800, by decide⟩
  have hdescends : Descends (traceAfter settings outrun) ⟨alice, jti₂⟩ ⟨alice, jti₃⟩ :=
    ⟨2, found, wrote, hfound, hwrote, hlooks, _, _, hwrites⟩
  exact h.1 3 start "first" ⟨alice, jti₁⟩ hpresents ⟨alice, jti₂⟩ ⟨alice, jti₃⟩ (of_decide_eq_true hlive)
    rfl (.single hdescends) (by decide)

set_option maxRecDepth 8000 in
/-- A logout ends the session of its token, not the one the token has been exchanged for. -/
theorem left_outlived : ¬NothingLeft (traceAfter settings outlived) (stateAfter settings outlived) := by
  intro h
  have hstart : (traceAfter settings outlived)[19]?.map (glance ⟨alice, jti₁⟩) =
      some (.arrive (.logout "first"), [some (.ok (.tokens ⟨"access for first", "first"⟩)),
        some (.ok (.tokens ⟨"access for second", "second"⟩))], false) := by decide
  have hfound : (traceAfter settings outlived)[12]?.map (fun s => (issuer? s, s.before.calls.length)) =
      some (some (1, .redisGet (refreshKey alice jti₁)), 2) := by decide
  have hwrote : (traceAfter settings outlived)[18]?.map issuer? =
      some (some (1, .redisSet (refreshKey alice jti₂) "1" 604800)) := by decide
  have hanswer : (stateAfter settings outlived).calls[2]?.map Call.result? =
      some (some (.ok .loggedOut)) := by decide
  obtain ⟨start, hstart, hglance⟩ := exists_step hstart
  obtain ⟨harrives, hglance⟩ := Prod.mk.inj hglance
  obtain ⟨hcalls, -⟩ := Prod.mk.inj hglance
  obtain ⟨found, hfound, hlooks⟩ := exists_step hfound
  obtain ⟨hlooks, hlength⟩ := Prod.mk.inj hlooks
  obtain ⟨wrote, hwrote, hwrites⟩ := exists_step hwrote
  have hpresents : Presents (traceAfter settings outlived) (stateAfter settings outlived) 2 start
      (.logout "first") "first" ⟨alice, jti₁⟩ (.ok .loggedOut) :=
    ⟨hstart, harrives, by simpa using congrArg List.length hcalls, Option.map_eq_some_iff.mp hanswer,
      604800, by decide⟩
  have hhanded : HandedOut start.before "first" := by
    obtain ⟨call, hcall, hresult⟩ := List.exists_of_mem_map (hcalls ▸ List.mem_cons_self)
    exact ⟨call, hcall, _, hresult⟩
  -- the call that rotated it was there when nobody had logged out
  have hstarted : 1 < found.before.calls.length ∧ ¬Answered found.before 2 := by
    refine ⟨by omega, fun ⟨call, hcall, _⟩ => ?_⟩
    exact absurd (List.getElem?_eq_some_iff.mp hcall).1 (by omega)
  exact (h.2 2 start "first" ⟨alice, jti₁⟩ hpresents hhanded).2 ⟨alice, jti₂⟩ 1 found wrote
    ⟨hfound, hwrote, hlooks, _, _, hwrites⟩ ⟨found, hfound, hstarted⟩ (by decide)

set_option maxRecDepth 8000 in
theorem revocation_left :
    (RunFrom settings State.initial anyStep (traceAfter settings outrun) (stateAfter settings outrun) ∧
        ¬NothingLeft (traceAfter settings outrun) (stateAfter settings outrun)) ∧
      RunFrom settings State.initial anyStep (traceAfter settings outlived) (stateAfter settings outlived) ∧
        ¬NothingLeft (traceAfter settings outlived) (stateAfter settings outlived) :=
  ⟨⟨(run_stateAfter settings (fun _ _ => true) outrun (by decide)).mono fun _ _ _ => trivial, left_outrun⟩,
    (run_stateAfter settings (fun _ _ => true) outlived (by decide)).mono fun _ _ _ => trivial, left_outlived⟩

end

end FlashWallet.Auth
