import EmailServer.Smtp.Steps

/-! # Runs of a session

What the loop of `run` preserves: an invariant that survives its head and every
command. A condition on the commands of a run is stated by walking along the
loop, so that it can be evaluated on a given run.
-/

namespace EmailServer.Smtp

/-- `P` holds whenever the loop calls `handleCommand`. -/
def Throughout (cfg : Config) (P : Bytes → Conn → Prop) : Nat → Conn → Prop
  | 0, _ => True
  | fuel + 1, c =>
    match nextCommand cfg c with
    | .ended _ => True
    | .skipped c => Throughout cfg P fuel c
    | .command line c =>
        P line c ∧ ((isolate (handleCommand cfg line c)).session.sockOpen = true →
          Throughout cfg P fuel (isolate (handleCommand cfg line c)))

instance decidableThroughout (cfg : Config) (P : Bytes → Conn → Prop)
    [∀ line c, Decidable (P line c)] : ∀ fuel c, Decidable (Throughout cfg P fuel c)
  | 0, _ => inferInstanceAs (Decidable True)
  | fuel + 1, c =>
    match head : nextCommand cfg c with
    | .ended _ => .isTrue (by simp [Throughout, head])
    | .skipped c =>
        let _ := decidableThroughout cfg P fuel c
        decidable_of_iff (Throughout cfg P fuel c) (by simp [Throughout, head])
    | .command line c =>
        let _ := decidableThroughout cfg P fuel (isolate (handleCommand cfg line c))
        decidable_of_iff
          (P line c ∧ ((isolate (handleCommand cfg line c)).session.sockOpen = true →
            Throughout cfg P fuel (isolate (handleCommand cfg line c))))
          (by simp [Throughout, head])

theorem throughout_always (cfg : Config) {P : Bytes → Conn → Prop} (always : ∀ line c, P line c)
    (fuel : Nat) (c : Conn) : Throughout cfg P fuel c := by
  induction fuel generalizing c with
  | zero => trivial
  | succ fuel ih =>
      unfold Throughout
      split
      · trivial
      · exact ih _
      · exact ⟨always _ _, fun _ => ih _⟩

/-- `P` holds of every command of a run. -/
def ThroughoutRun (cfg : Config) (P : Bytes → Conn → Prop) (c : Conn) : Prop :=
  Throughout cfg P (c.env.input.length + 1) (greet cfg c)

instance (cfg : Config) (P : Bytes → Conn → Prop) [∀ line c, Decidable (P line c)] (c : Conn) :
    Decidable (ThroughoutRun cfg P c) := decidableThroughout cfg P _ _

/-! ## The head of the loop -/

def Event.isReply : Event → Prop
  | .reply _ => True
  | _ => False

/-- From `c` to `c'` some input was read and perhaps complained about. -/
structure Waits (c c' : Conn) : Prop where
  session : c'.session = c.session
  log : Logs Event.isReply c c'
  input : c'.env.input <:+ c.env.input

theorem readLine_waits (c : Conn) : Waits c (readLine c).2 := by
  have suffix := readFrom_suffix 0 [] c.env.input
  unfold readLine
  generalize readFrom 0 [] c.env.input = read at suffix
  obtain ⟨result, rest⟩ := read
  cases result with
  | line | closed | tooManyErrors | threw | escaped => exact ⟨rfl, .refl c, suffix⟩
  | tooLong => exact ⟨rfl, (Logs.of_eq rfl).record (show Event.isReply (.reply _) from trivial), suffix⟩

theorem nextCommand_cases (cfg : Config) (c : Conn) :
    (∃ c', nextCommand cfg c = .ended c' ∧ Waits c c') ∨
    (∃ c', nextCommand cfg c = .skipped c' ∧ Waits c c' ∧
      c'.env.input.length < c.env.input.length) ∨
    (∃ line c', nextCommand cfg c = .command line c' ∧
      c'.session = { c.session with lastActivity := c'.session.lastActivity } ∧
      c'.env.log = .command line c.env.input :: c.env.log ∧
      c'.env.input <:+ c.env.input ∧ c'.env.input.length < c.env.input.length) := by
  have waits := readLine_waits c
  unfold nextCommand
  cases read : readLine c with
  | mk result d =>
  rw [read] at waits
  cases result with
  | failed | escaped => exact .inl ⟨d, rfl, waits⟩
  | line line =>
  have shorter := readLine_shorter read
  cases line with
  | nil => exact .inr (.inl ⟨d, rfl, waits, shorter⟩)
  | cons b line =>
  have plain : d.env.log = c.env.log := readLine_quiet read
  dsimp only
  cases timeout : isTimeoutExceeded cfg d with
  | mk exceeded e =>
  obtain rfl : e = d.readClock.2 := (congrArg Prod.snd timeout).symm
  cases exceeded with
  | true =>
      exact .inl ⟨_, rfl, waits.session, (waits.log.trans (.of_eq rfl)).record trivial, waits.input⟩
  | false =>
      refine .inr (.inr ⟨_, _, rfl, ?_, ?_, waits.input, shorter⟩)
      · rw [← waits.session]
        rfl
      · rw [← plain]
        rfl

/-! ## What the loop preserves -/

/-- An invariant that reading and commands preserve holds at the end of the loop. -/
theorem runLoop_invariant {cfg : Config} {P : Bytes → Conn → Prop} {inv : Conn → Prop}
    (waits : ∀ c c', inv c → Waits c c' → inv c')
    (command : ∀ c line c', inv c → nextCommand cfg c = .command line c' → P line c' →
      inv (isolate (handleCommand cfg line c')))
    {fuel : Nat} {c : Conn} (throughout : Throughout cfg P fuel c) (start : inv c) :
    inv (runLoop cfg fuel c) := by
  induction fuel generalizing c with
  | zero => exact start
  | succ fuel ih =>
      unfold Throughout at throughout
      unfold runLoop
      rcases nextCommand_cases cfg c with ⟨c', head, waited⟩ | ⟨c', head, waited, -⟩ |
        ⟨line, c', head, -⟩
      · rw [head]
        exact waits c c' start waited
      · rw [head] at throughout ⊢
        exact ih throughout (waits c c' start waited)
      · rw [head] at throughout ⊢
        have after := command c line c' start head throughout.1
        dsimp only
        split
        · exact ih (throughout.2 ‹_›) after
        · exact after

/-- An invariant that replies and closing the socket preserve as well holds at
    the end of a run. -/
theorem run_invariant {cfg : Config} {P : Bytes → Conn → Prop} {inv : Conn → Prop}
    (waits : ∀ c c', inv c → Waits c c' → inv c')
    (command : ∀ c line c', inv c → nextCommand cfg c = .command line c' → P line c' →
      inv (isolate (handleCommand cfg line c')))
    (closes : ∀ c, inv c → inv (c.record .socketClosed)) {allowed : Bool} {c : Conn}
    (throughout : ThroughoutRun cfg P c) (start : inv c) : inv (run cfg allowed c) := by
  have greeted : inv (greet cfg c) := waits c _ start
    ⟨rfl, (Logs.of_eq rfl).record trivial, List.suffix_rfl⟩
  unfold run
  dsimp only
  split
  · exact closes _ (waits _ _ greeted ⟨rfl, (Logs.of_eq rfl).record trivial, List.suffix_rfl⟩)
  · have ended : inv (runLoop cfg ((greet cfg c).env.input.length + 1) (greet cfg c)) :=
      runLoop_invariant waits command throughout greeted
    split
    · exact closes _ ended
    · exact ended

/-- With more fuel than input, the loop of `run` never runs dry. -/
theorem runLoop_fuel (cfg : Config) {fuel : Nat} {c : Conn} (enough : c.env.input.length < fuel) :
    runLoop cfg (fuel + 1) c = runLoop cfg fuel c := by
  induction fuel generalizing c with
  | zero => exact absurd enough (Nat.not_lt_zero _)
  | succ fuel ih =>
      rw [runLoop, runLoop]
      rcases nextCommand_cases cfg c with ⟨c', head, -⟩ | ⟨c', head, -, shorter⟩ |
        ⟨line, c', head, -, -, -, shorter⟩
      · rw [head]
      · rw [head]
        exact ih (by omega)
      · rw [head]
        dsimp only
        rw [ih]
        have := (handleCommand_input cfg line c').length_le
        omega

end EmailServer.Smtp
