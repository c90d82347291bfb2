import BraceGrammar.Proofs.Feeding

/-!
# Calls that may fail

Done one thing after the other, a step does what `Parser.step` says and leaves the parser as it was
when it fails (`Action.on_step`).  Feeding does what `Parser.feed` says (`Action.on_feed`), and when it
fails the tokens before the one that cannot be read have been read (`exists_of_feed_eq`).

A parser may be called in whatever modes, and be used on after failures: what one call keeps
(`grows_call`, `IsCoherent.call`), any number of calls keep.  A pending head therefore always has an
entry, and a step only fails on a semicolon when no head is pending.
-/

namespace BraceGrammar

namespace Parser

variable {p q : Parser} {mode : Mode} {token : String} {e : MissingEntry}

/-! ## Actions -/

namespace Action

theorem on_bind {α β : Type} (a : Action α) (f : α → Action β) (p : Parser) :
    (a >>= f).on p =
      match a.on p with
      | (.ok x, q) => (f x).on q
      | (.error e, q) => (.error e, q) := by
  simp only [on, ExceptT.run_bind, StateT.run_bind, Id.run_bind]
  cases StateT.run (ExceptT.run a) p with
  | mk x q => cases x <;> rfl

theorem on_get (p : Parser) : (get : Action Parser).on p = (.ok p, p) := rfl

/-- The look-up comes first, so that nothing is stored when it fails. -/
theorem on_storeBody (p : Parser) :
    storeBody.on p =
      match p.missing? with
      | none => (.ok (), p.addBodies [p.body])
      | some e => (.error e, p) := by
  rw [storeBody, on_bind, on_get]
  dsimp only
  unfold missing? addBodies tableWith
  cases p.head? with
  | none => rfl
  | some X =>
      dsimp only
      unfold Table.addBodies OrderedMap.contains
      cases hfind : p.table.find? X <;> simp only [Table.bodies?, hfind] <;> rfl

theorem on_step (mode : Mode) (token : String) (p : Parser) :
    (step mode token).on p =
      match p.step mode token with
      | .ok (next, q) => (.ok next, q)
      | .error e => (.error e, p) := by
  cases mode with
  | outsideBlock => rfl
  | expectHead =>
      by_cases hend : token = Token.blockEnd
      · simp only [step, Parser.step, hend]
        rfl
      · simp only [step, Parser.step, hend]
        rfl
  | accumulatingBody =>
      by_cases hend : token = Token.blockEnd
      · simp only [step, Parser.step, hend]
        rfl
      · by_cases hbody : token = Token.bodyEnd
        · have hstep : step .accumulatingBody Token.bodyEnd =
              storeBody >>= fun _ => clearBody >>= fun _ => pure .accumulatingBody := rfl
          rw [hbody, hstep, on_bind, on_storeBody]
          simp only [Parser.step, closeBody]
          cases p.missing? <;> rfl
        · simp only [step, Parser.step, hend, hbody]
          rfl

theorem on_feed (tokens : List String) (p : Parser) :
    (feed tokens).on p =
      match p.feed tokens with
      | (q, none) => (.ok (), q)
      | (q, some e) => (.error e, q) := by
  induction tokens generalizing p with
  | nil =>
      rw [feed_nil]
      rfl
  | cons token tokens ih =>
      rw [feed, on_bind, on_get]
      dsimp only
      rw [on_bind, on_step, feed_cons, advance]
      cases p.step p.mode token with
      | error e => rfl
      | ok answer => exact ih { answer.2 with mode := answer.1 }

theorem on_step_eq_error_iff :
    (step mode token).on p = (.error e, q) ↔ p.step mode token = .error e ∧ q = p := by
  rw [on_step]
  cases p.step mode token with
  | ok answer => simp
  | error cause => simp [eq_comm]

theorem on_feed_eq_ok_iff {tokens : List String} :
    (feed tokens).on p = (.ok (), q) ↔ p.feed tokens = (q, none) := by
  rw [on_feed]
  obtain ⟨r, missing?⟩ := p.feed tokens
  cases missing? <;> simp

theorem on_feed_eq_error_iff {tokens : List String} :
    (feed tokens).on p = (.error e, q) ↔ p.feed tokens = (q, some e) := by
  rw [on_feed]
  obtain ⟨r, missing?⟩ := p.feed tokens
  cases missing? <;> simp [and_comm]

end Action

/-! ## Failures -/

/-- When feeding fails, the tokens before one of them have been read, and this one fails. -/
theorem exists_of_feed_eq {tokens : List String} (h : p.feed tokens = (q, some e)) :
    ∃ before token rest, tokens = before ++ token :: rest ∧ p.feed before = (q, none) ∧
      q.step q.mode token = .error e := by
  induction tokens generalizing p with
  | nil => simp [feed_nil] at h
  | cons token tokens ih =>
      rw [feed_cons] at h
      cases hadvance : p.advance token with
      | error cause =>
          rw [hadvance] at h
          obtain ⟨rfl, hcause⟩ := Prod.mk.inj h
          obtain rfl := Option.some.inj hcause
          exact ⟨[], token, tokens, rfl, feed_nil p, advance_eq_error_iff.1 hadvance⟩
      | ok r =>
          rw [hadvance] at h
          obtain ⟨before, failing, rest, rfl, hbefore, hfails⟩ := ih h
          refine ⟨token :: before, failing, rest, rfl, ?_, hfails⟩
          rw [feed_cons, hadvance]
          exact hbefore

theorem IsCoherent.missing?_eq_some_iff (hp : p.IsCoherent) :
    p.missing? = some e ↔ p.head? = none ∧ e = ⟨none⟩ := by
  cases hhead : p.head? with
  | none => simp [missing?, hhead, eq_comm]
  | some X =>
      have hnone : p.missing? = none := missing?_eq_none_iff.2 ⟨X, hp.head_mem X hhead, hhead⟩
      simp [hnone]

/-! ## Calls -/

theorem on_action_step (mode : Mode) (token : String) (p : Parser) :
    ((Call.step mode token).action.on p).2 =
      match p.step mode token with
      | .ok (_, q) => q
      | .error _ => p := by
  rw [Call.action, Action.on_bind, Action.on_step]
  cases p.step mode token <;> rfl

theorem on_action_feed (tokens : List String) (p : Parser) :
    ((Call.feed tokens).action.on p).2 = (p.feed tokens).1 := by
  rw [Call.action, Action.on_feed]
  obtain ⟨q, missing?⟩ := p.feed tokens
  cases missing? <;> rfl

theorem grows_call (p : Parser) (call : Call) : p.Grows (call.action.on p).2 := by
  cases call with
  | feed tokens =>
      rw [on_action_feed]
      exact grows_feed p tokens
  | step mode token =>
      rw [on_action_step]
      cases hstep : p.step mode token with
      | error e => exact .refl p
      | ok answer => exact (reads_of_step hstep).grows

theorem IsCoherent.call (hp : p.IsCoherent) (call : Call) : (call.action.on p).2.IsCoherent := by
  cases call with
  | feed tokens =>
      rw [on_action_feed]
      exact hp.feed tokens
  | step mode token =>
      rw [on_action_step]
      cases hstep : p.step mode token with
      | error e => exact hp
      | ok answer => exact (reads_of_step hstep).isCoherent hp

theorem grows_after (p : Parser) (calls : List Call) : p.Grows (p.after calls) := by
  induction calls generalizing p with
  | nil => exact .refl p
  | cons call calls ih => exact (grows_call p call).trans (ih _)

theorem IsCoherent.after (hp : p.IsCoherent) (calls : List Call) : (p.after calls).IsCoherent := by
  induction calls generalizing p with
  | nil => exact hp
  | cons call calls ih => exact ih (hp.call call)

theorem IsUsed.isCoherent (h : p.IsUsed) : p.IsCoherent := by
  obtain ⟨calls, rfl⟩ := h
  exact isOrderly_new.toIsCoherent.after calls

/-- A parser that has been called any number of times, in whatever modes and with whatever failures on
the way, has its first head for start symbol and one of the heads for pending head, if there is one.
More calls keep the start symbol, and keep the heads in their order with new ones behind them.  A step
fails just on a semicolon within a body when no head is pending, and then it leaves the parser as it
was.  Feeding tokens that fail leaves it as feeding those before the failing one does. -/
theorem IsUsed.stays_coherent (h : p.IsUsed) :
    p.IsCoherent ∧ (p.start? = none ↔ p.table.heads = []) ∧
      (∀ calls, p.Grows (p.after calls)) ∧
      (∀ mode token e, p.step mode token = .error e ↔
        mode = .accumulatingBody ∧ token = Token.bodyEnd ∧ p.head? = none ∧ e = ⟨none⟩) ∧
      (∀ mode token e q, (Action.step mode token).on p = (.error e, q) ↔
        p.step mode token = .error e ∧ q = p) ∧
      ∀ tokens e q, (Action.feed tokens).on p = (.error e, q) →
        p.feed tokens = (q, some e) ∧
          ∃ before token rest, tokens = before ++ token :: rest ∧
            (Action.feed before).on p = (.ok (), q) ∧ q.step q.mode token = .error e := by
  have hcoherent := h.isCoherent
  refine ⟨hcoherent, hcoherent.start?_eq_none_iff, grows_after p, fun mode token e => ?_,
    fun mode token e q => Action.on_step_eq_error_iff, fun tokens e q hfails => ?_⟩
  · rw [step_eq_error_iff, hcoherent.missing?_eq_some_iff]
  · have hfeed := Action.on_feed_eq_error_iff.1 hfails
    obtain ⟨before, token, rest, htokens, hbefore, htoken⟩ := exists_of_feed_eq hfeed
    exact ⟨hfeed, before, token, rest, htokens, Action.on_feed_eq_ok_iff.2 hbefore, htoken⟩

/-- Its own mode is within a block, but the head that was pending there is gone. -/
def withoutHead : Parser := after {} [.feed ["\x7b", "<S>", "a"], .step .expectHead "\x7d"]

theorem stays_coherent_withoutHead :
    withoutHead.IsUsed ∧ withoutHead.IsCoherent ∧
    withoutHead.step .accumulatingBody ";" = .error ⟨none⟩ ∧
    (Action.step .accumulatingBody ";").on withoutHead = (.error ⟨none⟩, withoutHead) ∧
    (Action.feed ["b", ";", "c"]).on withoutHead =
      (.error ⟨none⟩, withoutHead.push "b") ∧
    ∃ before token rest, ["b", ";", "c"] = before ++ token :: rest ∧
      (Action.feed before).on withoutHead = (.ok (), withoutHead.push "b") ∧
      (withoutHead.push "b").step (withoutHead.push "b").mode token = .error ⟨none⟩ := by
  have hused : withoutHead.IsUsed := ⟨_, rfl⟩
  have hfails : (Action.feed ["b", ";", "c"]).on withoutHead =
      (.error ⟨none⟩, withoutHead.push "b") := rfl
  obtain ⟨hcoherent, -, -, hsteps, hleaves, hfeeds⟩ := hused.stays_coherent
  have hstep : withoutHead.step .accumulatingBody ";" = .error ⟨none⟩ :=
    (hsteps _ _ _).2 ⟨rfl, rfl, rfl, rfl⟩
  exact ⟨hused, hcoherent, hstep, (hleaves _ _ _ _).2 ⟨hstep, rfl⟩, hfails,
    (hfeeds _ _ _ hfails).2⟩

end Parser

end BraceGrammar
