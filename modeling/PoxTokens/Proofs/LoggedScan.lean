import PoxTokens.Proofs.StreamIndex

/-!
# PoxTokens.Proofs.LoggedScan

A scan that reports what it does.  A stream reports a token when it yields it
(`TokenStream.nextLogged_eq`), so whoever collects its tokens reports those that the stream
yields up to its end or its report, and in this order (`TokenStream.collectLogged_eq`).  This
is the answer of `tokenize`, with an event for each token although a scan that fails answers
none of them; the last event says how the scan ended (`events_tokenizeLogged`).
-/

namespace PoxTokens

/-- The event of one result: a token other than the end marker has one. -/
def Item.event? : Item → Option Event
  | .token t => if t.kind = .eof then none else some t.event
  | .failure _ => none

namespace TokenStream

variable {st st' : TokenStream}

/-- The next result is reported if it has an event. -/
theorem nextLogged_eq (st : TokenStream) :
    st.nextLogged = ⟨(st.next?.bind fun result => result.1.event?).toList, st.next?⟩ := by
  rw [next?_eq, nextLogged]
  by_cases hended : st.ended
  · simp [hended, Pure.pure, Logged.pure]
  · by_cases hrest : st.rest = []
    · by_cases hemit : st.options.emitEof <;>
        simp [hended, hrest, hemit, Pure.pure, Logged.pure, Item.event?, eofToken]
    · cases hselect : st.options.policy.select ruleTable st.rest with
      | none => simp [hended, hrest, Pure.pure, Logged.pure, Item.event?]
      | some l =>
          have hkind : (l.at st.position).kind ≠ .eof := kind_ne_eof_of_select hselect
          simp [hended, hrest, hkind, bind, Logged.bind, Logged.report, Pure.pure, Logged.pure,
            Item.event?]

/-! ## Collecting tokens -/

/-- Without a next result there is nothing to collect, and nothing is reported. -/
theorem collectLogged_of_next?_eq_none (h : st.next? = none) :
    st.collectLogged = ⟨[], .ok []⟩ := by
  rw [collectLogged]
  split <;> simp_all [nextLogged_eq]

/-- A report ends the collection. -/
theorem collectLogged_of_next?_eq_failure {e : LexError}
    (h : st.next? = some (.failure e, st')) : st.collectLogged = ⟨[], .error e⟩ := by
  rw [collectLogged]
  split <;> simp_all [nextLogged_eq, Item.event?]

/-- A token is reported before those behind it are collected. -/
theorem collectLogged_of_next?_eq_token {t : Token} (h : st.next? = some (.token t, st')) :
    st.collectLogged =
      ⟨(Item.token t).event?.toList ++ st'.collectLogged.events,
        st'.collectLogged.value.map (t :: ·)⟩ := by
  rw [collectLogged]
  split <;> simp_all [nextLogged_eq]

/-- The tokens of a stream are collected from the results that it yields, and each result is
reported that has an event. -/
theorem collectLogged_eq (st : TokenStream) :
    st.collectLogged = ⟨st.drain.1.filterMap Item.event?, Item.collect st.drain.1⟩ := by
  induction st using results_induction with
  | stop st h =>
      rw [collectLogged_of_next?_eq_none h, drain_of_next?_eq_none h]
      rfl
  | next st item st' h ih =>
      rw [drain_of_next?_eq_some h]
      cases item with
      | token t =>
          rw [collectLogged_of_next?_eq_token h, ih]
          cases hevent : (Item.token t).event? <;> simp [hevent, Item.collect]
      | failure e =>
          -- behind a report the stream yields nothing that could be reported
          have hlast : st'.drain.1 = [] := by
            rcases next?_cases h with ⟨-, hitem, -⟩ | ⟨l, -, hitem, -⟩ | ⟨-, -, -, rfl⟩
            · contradiction
            · contradiction
            · exact drain_of_ended rfl
          rw [collectLogged_of_next?_eq_failure h, hlast]
          rfl

end TokenStream

/-! ## Scans -/

/-- The events lead to the answer of `tokenize`. -/
theorem value_tokenizeLogged (options : ScanOptions) (source : String) :
    (tokenizeLogged options source).value = tokenize options source := by
  simp only [tokenizeLogged, Logged.value_bind, Logged.value_pure,
    TokenStream.collectLogged_eq, TokenStream.drain_start]
  rfl

/-- A scan reports its tokens and then how it ended. -/
theorem events_tokenizeLogged (options : ScanOptions) (source : String) :
    (tokenizeLogged options source).events = (items options source).filterMap Item.event? ++
      [scanEvent options source (tokenize options source)] := by
  simp only [tokenizeLogged, Logged.events_bind, Logged.events_report, Logged.events_pure,
    TokenStream.collectLogged_eq, TokenStream.drain_start, List.append_nil]
  rfl

end PoxTokens
