import Reprl.Proofs.Discipline.Expression

/-! Statements under a discipline. Whatever a block, a loop with a head or a handler declares, it
declares in a scope that it opens. -/

namespace Reprl.Discipline

open Source Setting

variable {D : Discipline} {base : D.Base} {w : D.World} {E F : Evaluator} {env : Env}

/-- Laps may run out before a loop is over. -/
theorem repeatBody (he : ¬D.ends) {body body' : Run Flow} {next next' : Run Bool}
    (hb : ∀ w', D.Later w w' → D.Runs base w' body body' D.HasFlow)
    (hn : ∀ w', D.Later w w' → D.Runs base w' next next' D.Any) {laps laps' : Nat}
    (hl : D.Covers laps laps') :
    D.Runs base w (Evaluator.repeatBody body next laps) (Evaluator.repeatBody body' next' laps')
      D.HasFlow := by
  induction laps generalizing w laps' with
  | zero =>
    refine D.exhaust he (hl.zero.imp_right fun h => ?_)
    rw [h, Evaluator.repeatBody]
  | succ laps ih =>
    obtain ⟨laps', rfl, hrest⟩ := hl.succ
    have again : ∀ w', D.Later w w' → D.Runs base w'
        (do if ← next then Evaluator.repeatBody body next laps else return .normal)
        (do if ← next' then Evaluator.repeatBody body' next' laps' else return .normal) D.HasFlow := by
      intro w' hg
      refine D.bind (hn w' hg) fun w'' further hg' _ => ?_
      have hlater := D.later_trans hg hg'
      split
      · exact ih (fun _ hg'' => hb _ (D.later_trans hlater hg''))
          (fun _ hg'' => hn _ (D.later_trans hlater hg'')) hrest
      · exact D.pure trivial
    refine D.bind (hb w (D.later_refl w)) fun w' flow hg hflow => ?_
    cases flow with
    | normal => exact again w' hg
    | continued => exact again w' hg
    | broken => exact D.pure trivial
    | returned value => exact D.pure hflow

namespace Sound

theorem repeatBody (h : D.Sound 3 base E F) (he : ¬D.ends) {body body' : Run Flow}
    {next next' : Run Bool} (hb : ∀ w', D.Later w w' → D.Runs base w' body body' D.HasFlow)
    (hn : ∀ w', D.Later w w' → D.Runs base w' next next' D.Any) :
    D.Runs base w (Evaluator.repeatBody body next E.laps) (Evaluator.repeatBody body' next' F.laps)
      D.HasFlow := Discipline.repeatBody he hb hn h.laps

theorem execList (h : D.Sound 3 base E F) (he : D.Chain w env) (ho : D.Owns w env)
    {body : List Stmt} (hp : D.Permits (Stmt.partsIn body)) :
    D.Runs base w (E.execList env body) (F.execList env body) D.HasFlow := by
  induction body generalizing w with
  | nil => exact D.pure trivial
  | cons stmt rest ih =>
    simp only [Stmt.partsIn, Stmt.cons_inner, permits_append] at hp
    refine D.bind (h.exec (fun _ => ho) he hp.1) fun _ flow hg hflow => ?_
    cases flow with
    | normal => exact ih (D.chain_later hg he) (D.owns_later hg ho) hp.2
    | _ => exact D.pure hflow

theorem execBlock (h : D.Sound 3 base E F) (he : D.Chain w env) {body : List Stmt}
    (hp : D.Permits (Stmt.partsIn body)) :
    D.Runs base w (E.execBlock env body) (F.execBlock env body) D.HasFlow :=
  D.bind (D.childScope he) fun _ _ _ ⟨hin, ho⟩ => D.bind (D.hoist hin ho hp) fun _ _ hg _ =>
    h.execList (D.chain_later hg hin) (D.owns_later hg ho) hp

theorem execDeclarators (h : D.Sound 3 base E F) (he : D.Chain w env) (ho : D.Owns w env)
    (mutable : Bool) {items : List Declarator} (hp : D.Permits (Declarator.partsIn items)) :
    D.Runs base w (E.execDeclarators env mutable items) (F.execDeclarators env mutable items) D.Any := by
  induction items generalizing w with
  | nil => exact D.pure trivial
  | cons item rest ih =>
    obtain ⟨target, value⟩ := item
    simp only [Declarator.partsIn, permits_append] at hp
    have declared : ∀ (w : D.World) name value, D.Chain w env → D.Owns w env → D.Has w value →
        D.Runs base w (do Run.declare env name value mutable; E.execDeclarators env mutable rest)
          (do Run.declare env name value mutable; F.execDeclarators env mutable rest) D.Any :=
      fun w name value he ho hv => D.bind (D.declare name mutable he ho hv) fun _ _ hg _ =>
        ih (D.chain_later hg he) (D.owns_later hg ho) hp.2
    refine D.bind (D.patternName target) fun w' name hg _ => ?_
    have he' := D.chain_later hg he
    have ho' := D.owns_later hg ho
    cases value with
    | none => exact declared w' name .undefined he' ho' (D.has_plain w' rfl)
    | some value =>
      have hvalue : D.Permits value.parts := by simpa only [Expr.partsOption, Expr.cons_inner] using hp.1.2
      exact D.bind (h.eval he' hvalue) fun w'' value hg' hv =>
        declared w'' name value (D.chain_later hg' he') (D.owns_later hg' ho') hv

theorem execVariables (h : D.Sound 3 base E F) (he : D.Chain w env) (ho : D.Owns w env)
    (kind : VarKind) {items : List Declarator} (hp : D.Permits (Declarator.partsIn items)) :
    D.Runs base w (E.execVariables env kind items) (F.execVariables env kind items) D.Any :=
  h.execDeclarators he ho _ hp

theorem holds (h : D.Sound 3 base E F) (he : D.Chain w env) {test : Expr}
    (hp : D.Permits test.parts) : D.Runs base w (E.holds env test) (F.holds env test) D.Any :=
  D.bind (h.eval he hp) fun _ _ _ _ => D.pure trivial

theorem execWhile (h : D.Sound 3 base E F) (hends : ¬D.ends) (he : D.Chain w env) {test : Expr}
    {body : Stmt} (ho : body.declares = true → D.Owns w env) (ht : D.Permits test.parts)
    (hp : D.Permits body.parts) :
    D.Runs base w (E.execWhile env test body) (F.execWhile env test body) D.HasFlow := by
  refine D.bind (h.holds he ht) fun _ first hg _ => ?_
  have he' := D.chain_later hg he
  split
  · refine h.repeatBody hends (fun _ hg' => ?_) fun _ hg' => h.holds (D.chain_later hg' he') ht
    exact h.exec (fun hd => D.owns_later hg' (D.owns_later hg (ho hd))) (D.chain_later hg' he') hp
  · exact D.pure trivial

theorem startFor (h : D.Sound 3 base E F) (he : D.Chain w env) (ho : D.Owns w env)
    {start : ForStart} (hp : D.Permits start.parts) :
    D.Runs base w (E.startFor env start) (F.startFor env start) D.Any := by
  cases start with
  | absent => exact D.pure trivial
  | declaration kind items =>
    have hitems : D.Permits (Declarator.partsIn items) := by simpa only [ForStart.parts] using hp
    exact h.execVariables he ho kind hitems
  | expression value =>
    have hvalue : D.Permits value.parts := by simpa only [ForStart.parts, Expr.cons_inner] using hp
    exact D.bind (h.eval he hvalue) fun _ _ _ _ => D.pure trivial

theorem testFor (h : D.Sound 3 base E F) (he : D.Chain w env) {test : Option Expr}
    (hp : D.Permits (Expr.partsOption test)) :
    D.Runs base w (E.testFor env test) (F.testFor env test) D.Any := by
  cases test with
  | none => exact D.pure trivial
  | some test =>
    have htest : D.Permits test.parts := by simpa only [Expr.partsOption, Expr.cons_inner] using hp
    exact h.holds he htest

theorem updateFor (h : D.Sound 3 base E F) (he : D.Chain w env) {update : Option Expr}
    (hp : D.Permits (Expr.partsOption update)) :
    D.Runs base w (E.updateFor env update) (F.updateFor env update) D.Any := by
  cases update with
  | none => exact D.pure trivial
  | some update =>
    have hupdate : D.Permits update.parts := by simpa only [Expr.partsOption, Expr.cons_inner] using hp
    exact D.bind (h.eval he hupdate) fun _ _ _ _ => D.pure trivial

theorem execFor (h : D.Sound 3 base E F) (hends : ¬D.ends) (he : D.Chain w env) {start : ForStart}
    {test update : Option Expr} {body : Stmt} (hs : D.Permits start.parts)
    (ht : D.Permits (Expr.partsOption test)) (hu : D.Permits (Expr.partsOption update))
    (hp : D.Permits body.parts) :
    D.Runs base w (E.execFor env start test update body) (F.execFor env start test update body)
      D.HasFlow := by
  refine D.bind (D.childScope he) fun _ scope _ ⟨hin, ho⟩ =>
    D.bind (h.startFor hin ho hs) fun _ _ hg _ => ?_
  have hin' := D.chain_later hg hin
  refine D.bind (h.testFor hin' ht) fun _ first hg' _ => ?_
  have hinside := D.chain_later hg' hin'
  have hown := D.owns_later hg' (D.owns_later hg ho)
  split
  · refine h.repeatBody hends (fun _ hg => ?_) fun _ hg => ?_
    · exact h.exec (fun _ => D.owns_later hg hown) (D.chain_later hg hinside) hp
    · have hagain := D.chain_later hg hinside
      exact D.bind (h.updateFor hagain hu) fun _ _ hg' _ => h.testFor (D.chain_later hg' hagain) ht
  · exact D.pure trivial

theorem handle (h : D.Sound 3 base E F) (he : D.Chain w env) {thrown : Value} (ht : D.Has w thrown)
    {handler : Handler} (hp : D.Permits handler.parts) :
    D.Runs base w (E.handle env thrown handler) (F.handle env thrown handler)
      (D.Settled D.HasFlow D.Has) := by
  cases handler with
  | absent => exact D.pure ht
  | plain body =>
    have hbody : D.Permits (Stmt.partsIn body) := by simpa only [Handler.parts] using hp
    exact D.bind (D.childScope he) fun _ _ _ ⟨hin, _⟩ => D.attempt (h.execBlock hin hbody)
  | binding param body =>
    simp only [Handler.parts, permits_append] at hp
    refine D.bind (D.childScope he) fun _ _ hg ⟨hin, ho⟩ =>
      D.bind (D.patternName param) fun _ name hg' _ => ?_
    have hin' := D.chain_later hg' hin
    have ht' := D.has_later hg' (D.has_later hg ht)
    exact D.bind (D.declare name true hin' (D.owns_later hg' ho) ht') fun _ _ hg'' _ =>
      D.attempt (h.execBlock (D.chain_later hg'' hin') hp.2)

theorem settled_later {w' : D.World} (hg : D.Later w w') {result : Except Value Flow}
    (hr : D.Settled D.HasFlow D.Has w result) : D.Settled D.HasFlow D.Has w' result := by
  cases result with
  | ok flow => exact hasFlow_later hg hr
  | error thrown => exact D.has_later hg hr

theorem finish (h : D.Sound 3 base E F) (he : D.Chain w env) {result : Except Value Flow}
    (hr : D.Settled D.HasFlow D.Has w result) {finalizer : Finalizer}
    (hp : D.Permits finalizer.parts) :
    D.Runs base w (E.finish env result finalizer) (F.finish env result finalizer) D.HasFlow := by
  cases finalizer with
  | absent => exact D.settle hr
  | block body =>
    have hbody : D.Permits (Stmt.partsIn body) := by simpa only [Finalizer.parts] using hp
    refine D.bind (h.execBlock he hbody) fun _ flow hg hflow => ?_
    cases flow with
    | normal => exact D.settle (settled_later hg hr)
    | _ => exact D.pure hflow

theorem execTry (h : D.Sound 3 base E F) (he : D.Chain w env) {body : List Stmt}
    {handler : Handler} {finalizer : Finalizer} (hb : D.Permits (Stmt.partsIn body))
    (hh : D.Permits handler.parts) (hf : D.Permits finalizer.parts) :
    D.Runs base w (E.execTry env body handler finalizer) (F.execTry env body handler finalizer)
      D.HasFlow := by
  refine D.bind (D.attempt (h.execBlock he hb)) fun w' result hg hr => ?_
  have he' := D.chain_later hg he
  cases result with
  | ok flow =>
    have hflow : D.Runs base w' (Pure.pure (.ok flow)) (Pure.pure (.ok flow))
        (D.Settled D.HasFlow D.Has) := D.pure hr
    exact D.bind hflow fun _ _ hg' hr => h.finish (D.chain_later hg' he') hr hf
  | error thrown =>
    exact D.bind (h.handle he' hr hh) fun _ _ hg' hr => h.finish (D.chain_later hg' he') hr hf

theorem execRule (h : D.Sound 3 base E F) {stmt : Stmt} (ho : stmt.declares = true → D.Owns w env)
    (he : D.Chain w env) (hp : D.Permits stmt.parts) :
    D.Runs base w (E.execRule stmt env) (F.execRule stmt env) D.HasFlow := by
  obtain ⟨hself, hinner⟩ := permits_cons.mp hp
  have hloop : stmt.isLoop = true → ¬D.ends := fun hl hends =>
    Bool.noConfusion ((D.loopFree hends hself).symm.trans hl)
  cases stmt
  all_goals simp only [Stmt.inner, Expr.cons_inner, Stmt.cons_inner, permits_append] at hinner
  case expression value => exact D.bind (h.eval he hinner) fun _ _ _ _ => D.pure trivial
  case declaration kind items =>
    -- The only statement that declares names in the scope in which it stands.
    exact D.bind (h.execVariables he (ho rfl) kind hinner) fun _ _ _ _ => D.pure trivial
  case function | empty | debugger => exact D.pure trivial
  case block body => exact h.execBlock he hinner
  case branch test yes no =>
    simp only [Stmt.declares, Bool.or_eq_true] at ho
    refine D.bind (h.holds he hinner.1.1) fun _ first hg _ => ?_
    have he' := D.chain_later hg he
    split
    · exact h.exec (fun hd => D.owns_later hg (ho (.inl hd))) he' hinner.1.2
    · cases no with
      | none => exact D.pure trivial
      | some no =>
        have hno : D.Permits no.parts := by simpa only [Stmt.partsOption, Stmt.cons_inner] using hinner.2
        exact h.exec (fun hd => D.owns_later hg (ho (.inr hd))) he' hno
  case whileLoop test body =>
    simp only [Stmt.declares] at ho
    exact h.execWhile (hloop rfl) he ho hinner.1 hinner.2
  case doLoop body test =>
    simp only [Stmt.declares] at ho
    refine h.repeatBody (hloop rfl) (fun _ hg => ?_) fun _ hg => h.holds (D.chain_later hg he) hinner.2
    exact h.exec (fun hd => D.owns_later hg (ho hd)) (D.chain_later hg he) hinner.1
  case forLoop start test update body =>
    exact h.execFor (hloop rfl) he hinner.1.1.1 hinner.1.1.2 hinner.1.2 hinner.2
  case breakOff label => cases label <;> first | exact D.pure trivial | exact D.raiseError _ _
  case continueOn label => cases label <;> first | exact D.pure trivial | exact D.raiseError _ _
  case returnValue value =>
    cases value with
    | none => exact D.pure (D.has_plain w rfl)
    | some value =>
      have hvalue : D.Permits value.parts := by simpa only [Expr.partsOption, Expr.cons_inner] using hinner
      exact D.bind (h.eval he hvalue) fun _ _ _ hv => D.pure hv
  case throwValue value => exact D.bind (h.eval he hinner) fun _ _ _ hv => D.raise hv
  case tryBlock body handler finalizer => exact h.execTry he hinner.1.1 hinner.1.2 hinner.2
  case foreign => exact D.raiseError _ _

end Sound

end Reprl.Discipline
