import ObHtap.Net.PlainCommunicator

/-!
# Answers in the plain protocol

The answer that the peer should get to a request, and when it gets it: a result that fails must not
have more bytes before the failure than the buffer has room for.
-/

namespace ObHtap

namespace PlainCommunicator

open BufferedWriter

/-! ## The answer -/

/-- The cells of a row as far as they can be had, and whether all can. -/
def cellsText : Bool → List (Except RC (List UInt8)) → List UInt8 × Except RC Unit
  | _, [] => ([], .ok ())
  | first, .error rc :: _ => (if first then [] else delim, .error rc)
  | first, .ok cell :: cells =>
    ((if first then [] else delim) ++ cell ++ (cellsText false cells).1,
      (cellsText false cells).2)

/-- The rows up to the first that fails, and whether there is one. -/
def rowsText : List (List (Except RC (List UInt8))) → RC → List UInt8 × Except RC Unit
  | [], last => ([], if last = .recordEof then .ok () else .error last)
  | row :: rows, last =>
    match (cellsText true row).2 with
    | .error rc => ((cellsText true row).1, .error rc)
    | .ok () =>
      ((cellsText true row).1 ++ newline ++ (rowsText rows last).1, (rowsText rows last).2)

def headerText (header : List (List UInt8)) : List UInt8 :=
  if header = [] then [] else (cellsText true (header.map .ok)).1 ++ newline

def resultText : ResultRows → List UInt8 × Except RC Unit
  | .tuples tuples last => rowsText tuples last
  | .chunks chunks last => rowsText (chunks.flatten.map (List.map .ok)) last

def debugText (request : SqlRequest) : List UInt8 :=
  if request.sqlDebugOn then
    request.debugInfos.flatMap fun info => debugMessagePrefix ++ info ++ newline
  else []

/-- The result has an operator that is to be run, and that opens. -/
def Runs (result : SqlResult) : Prop :=
  result.returnCode = none ∧ result.hasOperator = true ∧ result.opens = .ok ()

instance (result : SqlResult) : Decidable (Runs result) := inferInstanceAs (Decidable (_ ∧ _ ∧ _))

/-- What becomes of a result without rows to send. -/
def stateOf (result : SqlResult) : Option RC :=
  if result.returnCode ≠ none ∨ result.hasOperator = false then result.returnCode
  else returnCode result.opens

/-- All of a result, or a line that says why there is nothing of it.  Only a line is there also for
a result without columns. -/
def resultAnswer (result : SqlResult) : List UInt8 :=
  if Runs result then
    match (resultText result.rows).2 with
    | .error rc => stateLine (some rc) result.stateString
    | .ok () =>
      headerText result.header ++ (resultText result.rows).1 ++
        if result.header = [] then stateLine (returnCode result.closes) result.stateString
        else []
  else stateLine (stateOf result) result.stateString

/-- The answer to a request ends with the terminator; before it are the lines for debugging, if the
session has asked for them. -/
def answer (request : SqlRequest) : List UInt8 :=
  resultAnswer request.result ++ debugText request ++ sendMessageDelimiter

/-- A result that fails has no more bytes before the failure than there is room for. -/
def Fits (capacity : Nat) (request : SqlRequest) : Prop :=
  Runs request.result → (∃ rc, (resultText request.result.rows).2 = .error rc) →
    (headerText request.result.header ++ (resultText request.result.rows).1).length ≤ capacity

variable {socket : Socket} {w : BufferedWriter} {first : Bool} {data : List UInt8}

/-! ## The bytes that are written -/

/-- From whatever writer, the program writes the bytes, and ends so. -/
def Writes (x : WriteM Unit) (text : List UInt8 × Except RC Unit) : Prop :=
  ∀ w : BufferedWriter, 0 ≤ w.fd → Triple (fun s => s = w) x
    (fun _ s => text.2 = .ok () ∧ Wrote w text.1 s)
    fun rc s => text.2 = .error rc ∧ Wrote w text.1 s

theorem writes_writen (hsocket : socket.Reliable) :
    Writes (writen socket data) (data, .ok ()) :=
  fun _ hfd => (writen_spec hsocket hfd).conseq (fun _ => id) (fun _ _ h => ⟨rfl, h⟩)
    fun _ _ => False.elim

theorem writes_pure : Writes (pure ()) ([], .ok ()) := by
  intro w _
  refine Triple.pure ?_
  rintro s rfl
  exact ⟨rfl, .refl s⟩

theorem writes_throw {rc : RC} : Writes (throw rc) ([], .error rc) := by
  intro w _
  refine Triple.throw ?_
  rintro s rfl
  exact ⟨rfl, .refl s⟩

theorem Writes.seq {x y : WriteM Unit} {text : List UInt8}
    {text' : List UInt8 × Except RC Unit} (h : Writes x (text, .ok ())) (h' : Writes y text') :
    Writes (x >>= fun _ => y) (text ++ text'.1, text'.2) := by
  intro w hfd
  refine Triple.bind (Q := fun _ s => Wrote w text s)
    ((h w hfd).conseq (fun _ => id) (fun _ _ hok => hok.2) (by rintro _ _ ⟨⟨⟩, -⟩)) fun _ => ?_
  intro s hwrote
  have hrest := (h' s (hwrote.fd ▸ hfd)).conseq (P := fun s' => s' = s)
    (Q := fun _ s' => text'.2 = .ok () ∧ Wrote w (text ++ text'.1) s')
    (E := fun rc s' => text'.2 = .error rc ∧ Wrote w (text ++ text'.1) s') (fun _ => id)
    (fun _ _ hok => ⟨hok.1, hwrote.trans hok.2⟩) fun _ _ herror => ⟨herror.1, hwrote.trans herror.2⟩
  exact hrest s rfl

theorem Writes.ends {x : WriteM Unit} {text : List UInt8 × Except RC Unit}
    {result : Except RC Unit} (h : Writes x text) (hresult : text.2 = result) :
    Writes x (text.1, result) := by
  subst hresult
  exact h

theorem Writes.seq_error {x y : WriteM Unit} {text : List UInt8} {rc : RC}
    (h : Writes x (text, .error rc)) : Writes (x >>= fun _ => y) (text, .error rc) := by
  intro w hfd
  exact Triple.bind (Q := fun _ _ => False)
    ((h w hfd).conseq (fun _ => id) (by rintro _ _ ⟨⟨⟩, -⟩) fun _ _ herror => herror)
    fun _ _ => False.elim

theorem writes_writeDelim (hsocket : socket.Reliable) :
    Writes (writeDelim socket first) (if first then [] else delim, .ok ()) := by
  cases first with
  | true => exact writes_pure
  | false => exact writes_writen hsocket

theorem writes_writeCells (hsocket : socket.Reliable) (cells : List (Except RC (List UInt8))) :
    Writes (writeCells socket first cells) (cellsText first cells) := by
  induction cells generalizing first with
  | nil => exact writes_pure
  | cons cell cells ih =>
    cases cell with
    | error rc =>
      have h := (@writes_writeDelim _ first hsocket).seq (@writes_throw rc)
      rwa [List.append_nil] at h
    | ok cell =>
      have hcell := (@writes_writen _ cell hsocket).seq (@ih false)
      have h := (@writes_writeDelim _ first hsocket).seq hcell
      rwa [← List.append_assoc] at h

theorem cellsText_map_ok (cells : List (List UInt8)) :
    (cellsText first (cells.map .ok)).2 = .ok () := by
  induction cells generalizing first with
  | nil => rfl
  | cons cell cells ih => exact ih

theorem writes_writeRows (hsocket : socket.Reliable) (last : RC)
    (rows : List (List (Except RC (List UInt8)))) :
    Writes (writeRows socket rows last) (rowsText rows last) := by
  induction rows with
  | nil =>
    unfold writeRows rowsText
    split
    · exact writes_pure
    · exact writes_throw
  | cons row rows ih =>
    have hcells := @writes_writeCells _ true hsocket row
    unfold writeRows rowsText writeRow
    cases hrow : (cellsText true row).2 with
    | error rc => exact (hcells.ends hrow).seq_error.seq_error
    | ok _ => exact ((hcells.ends hrow).seq (writes_writen hsocket)).seq ih

theorem writes_writeHeader (hsocket : socket.Reliable) (header : List (List UInt8)) :
    Writes (writeHeader socket header) (headerText header, .ok ()) := by
  unfold writeHeader headerText
  split
  · exact writes_pure
  · have hcells := @writes_writeCells _ true hsocket (header.map .ok)
    exact (hcells.ends (cellsText_map_ok header)).seq (writes_writen hsocket)

theorem writes_writeResultRows (hsocket : socket.Reliable) (rows : ResultRows) :
    Writes (writeResultRows socket rows) (resultText rows) := by
  cases rows with
  | tuples tuples last => exact writes_writeRows hsocket last _
  | chunks chunks last => exact writes_writeRows hsocket last _

theorem writes_writeDebug (hsocket : socket.Reliable) (request : SqlRequest) :
    Writes (writeDebug socket request) (debugText request, .ok ()) := by
  unfold writeDebug debugText
  split
  · induction request.debugInfos with
    | nil => exact writes_pure
    | cons info infos ih =>
      have hend := (@writes_writen _ info hsocket).seq (@writes_writen _ newline hsocket)
      have hinfo := (@writes_writen _ debugMessagePrefix hsocket).seq hend
      rw [← List.append_assoc] at hinfo
      rw [List.flatMap_cons]
      exact hinfo.seq ih
  · exact writes_pure

/-! ## The answer that is delivered -/

variable {x : WriteM Unit} {text : List UInt8 × Except RC Unit}

/-- After a failure the program goes on with what has been written. -/
theorem Writes.attempt (h : Writes x text) (hfd : 0 ≤ w.fd) :
    Triple (fun s => s = w) (attempt x) (fun result s => result = text.2 ∧ Wrote w text.1 s)
      fun _ _ => False := by
  rintro s rfl
  have hx := h s hfd s rfl
  unfold PlainCommunicator.attempt
  cases hrun : x s with
  | ok _ s' =>
    rw [hrun] at hx
    exact ⟨hx.1.symm, hx.2⟩
  | error rc s' =>
    rw [hrun] at hx
    exact ⟨hx.1.symm, hx.2⟩

theorem attempt_flush (hsocket : socket.Reliable) (hfd : 0 ≤ w.fd) :
    Triple (fun s => s = w) (attempt (flush socket w.ring.dataSize))
      (fun _ s => Flushed w s ∧ s.ring.dataSize = 0) fun _ _ => False := by
  rintro s rfl
  have hx := flush_spec hsocket hfd (Nat.le_refl _) s rfl
  unfold PlainCommunicator.attempt
  cases hrun : flush socket s.ring.dataSize s with
  | ok _ s' =>
    rw [hrun] at hx
    exact hx
  | error rc s' =>
    rw [hrun] at hx
    exact hx.elim

/-- Bytes are sent or wait behind those before, and behind some that should not be there. -/
structure Answered (w : BufferedWriter) (leaked text : List UInt8) (s : BufferedWriter) :
    Prop where
  all : s.sent ++ s.ring.contents = w.sent ++ (leaked ++ text)
  capacity : s.ring.capacity = w.ring.capacity
  fd : s.fd = w.fd

theorem answered_of_wrote {s : BufferedWriter} (hempty : w.ring.dataSize = 0)
    (h : Wrote w data s) : Answered w [] data s := by
  refine ⟨?_, h.capacity, h.fd⟩
  rw [h.all, RingBuffer.contents_eq_nil hempty, List.append_nil, List.nil_append]

theorem Answered.wrote {s s' : BufferedWriter} {leaked text : List UInt8}
    (h : Answered w leaked text s) (h' : Wrote s data s') :
    Answered w leaked (text ++ data) s' := by
  refine ⟨?_, h'.capacity.trans h.capacity, h'.fd.trans h.fd⟩
  rw [h'.all, h.all, List.append_assoc, List.append_assoc]

theorem writeState_spec (hsocket : socket.Reliable) (hfd : 0 ≤ w.fd) (rc : Option RC)
    (stateString : List UInt8) :
    Triple (fun s => s = w) (writeState socket rc stateString)
      (fun r s => r.2 = false ∧ Wrote w (stateLine rc stateString) s) fun _ _ => False := by
  unfold writeState
  refine ((writes_writen hsocket).attempt hfd).bind fun result => ?_
  refine Triple.of_and ?_
  rintro rfl
  exact Triple.pure fun _ h => ⟨rfl, h⟩

/-- The rows of a result that runs, behind its header. -/
theorem writeRows_spec (hsocket : socket.Reliable) (hfd : 0 ≤ w.fd) (hempty : w.ring.dataSize = 0)
    {result : SqlResult} (hruns : Runs result) :
    Triple (fun s => s = w) (do
        match ← attempt (writeHeader socket result.header) with
        | .error rc => pure (.error rc, true)
        | .ok () =>
          match ← attempt (writeResultRows socket result.rows) with
          | .error rc => do
            clearBuffer
            writeState socket (some rc) result.stateString
          | .ok () =>
            if result.header = [] then
              writeState socket (returnCode result.closes) result.stateString
            else pure (result.closes, false))
      (fun r s => r.2 = false ∧ ∃ leaked, Answered w leaked (resultAnswer result) s ∧
        (leaked = [] ↔ ((∃ rc, (resultText result.rows).2 = .error rc) →
          (headerText result.header ++ (resultText result.rows).1).length ≤ w.ring.capacity)))
      fun _ _ => False := by
  refine ((writes_writeHeader hsocket result.header).attempt hfd).bind fun written => ?_
  refine Triple.of_and ?_
  rintro rfl s₁ hheader
  have hfd₁ : 0 ≤ s₁.fd := hheader.fd ▸ hfd
  refine Triple.bind (Q := fun r s => r = (resultText result.rows).2 ∧
    Wrote w (headerText result.header ++ (resultText result.rows).1) s)
    (((writes_writeResultRows hsocket result.rows).attempt hfd₁).post
      fun _ _ h => ⟨h.1, hheader.trans h.2⟩) (fun r => ?_) s₁ rfl
  refine Triple.of_and ?_
  rintro rfl s₂ hwrote
  have hfd₂ : 0 ≤ s₂.fd := hwrote.fd ▸ hfd
  unfold resultAnswer
  rw [if_pos hruns]
  cases hrows : (resultText result.rows).2 with
  | error rc =>
    -- what has been sent can't be thrown away
    obtain ⟨leaked, hleaked⟩ := hwrote.sent
    have hfits := hwrote.sent_eq_iff
    rw [hempty, Nat.zero_add] at hfits
    refine Triple.bind (Q := fun _ s => s = { s₂ with ring := s₂.ring.clear })
      (Triple.modify fun s hs => hs ▸ rfl) (fun _ => ?_) s₂ rfl
    refine (@writeState_spec _ { s₂ with ring := s₂.ring.clear } hsocket hfd₂ (some rc)
      result.stateString).post ?_
    rintro r s ⟨hr, hline⟩
    refine ⟨hr, leaked, ⟨?_, hline.capacity.trans hwrote.capacity, hline.fd.trans hwrote.fd⟩, ?_⟩
    · rw [hline.all]
      dsimp only
      rw [RingBuffer.contents_clear, List.append_nil, ← hleaked, List.append_assoc]
    · rw [← hleaked, List.append_right_eq_self] at hfits
      exact hfits.trans ⟨fun h _ => h, fun h => h ⟨rc, rfl⟩⟩
  | ok _ =>
    have hnone : ([] : List UInt8) = [] ↔ ((∃ rc, (Except.ok () : Except RC Unit) = .error rc) →
        (headerText result.header ++ (resultText result.rows).1).length ≤ w.ring.capacity) := by
      refine iff_of_true rfl ?_
      rintro ⟨rc, ⟨⟩⟩
    dsimp only
    by_cases hcolumns : result.header = []
    · rw [if_pos hcolumns, if_pos hcolumns]
      refine (writeState_spec hsocket hfd₂ (returnCode result.closes) result.stateString).post ?_ s₂
        rfl
      rintro r s ⟨hr, hline⟩
      exact ⟨hr, [], answered_of_wrote hempty (hwrote.trans hline), hnone⟩
    · rw [if_neg hcolumns, if_neg hcolumns, List.append_nil]
      exact ⟨rfl, [], answered_of_wrote hempty hwrote, hnone⟩

/-- What a failed result has had sent is there before the line. -/
theorem writeResultInternal_spec (hsocket : socket.Reliable) (hfd : 0 ≤ w.fd)
    (hempty : w.ring.dataSize = 0) (request : SqlRequest) :
    Triple (fun s => s = w) (writeResultInternal socket request.result)
      (fun r s => r.2 = false ∧ ∃ leaked, Answered w leaked (resultAnswer request.result) s ∧
        (leaked = [] ↔ Fits w.ring.capacity request)) fun _ _ => False := by
  unfold writeResultInternal Fits
  have hline (rc : Option RC) (hnot : ¬ Runs request.result) (hrc : stateOf request.result = rc) :
      Triple (fun s => s = w) (writeState socket rc request.result.stateString)
        (fun r s => r.2 = false ∧ ∃ leaked, Answered w leaked (resultAnswer request.result) s ∧
          (leaked = [] ↔ (Runs request.result →
            (∃ rc, (resultText request.result.rows).2 = .error rc) →
            (headerText request.result.header ++ (resultText request.result.rows).1).length ≤
              w.ring.capacity))) fun _ _ => False := by
    refine (writeState_spec hsocket hfd rc request.result.stateString).post ?_
    rintro r s ⟨hr, hwrote⟩
    unfold resultAnswer
    rw [if_neg hnot, hrc]
    exact ⟨hr, [], answered_of_wrote hempty hwrote, iff_of_true rfl fun h => absurd h hnot⟩
  by_cases hstate : request.result.returnCode ≠ none ∨ request.result.hasOperator = false
  · rw [if_pos hstate]
    apply hline
    · rintro ⟨hcode, hoperator, -⟩
      rcases hstate with hbad | hbad
      · exact hbad hcode
      · exact absurd hoperator (Bool.eq_false_iff.mp hbad)
    · exact if_pos hstate
  · rw [if_neg hstate]
    cases hopens : request.result.opens with
    | error rc =>
      apply hline
      · rintro ⟨-, -, hok⟩
        rw [hopens] at hok
        cases hok
      · unfold stateOf
        rw [if_neg hstate, hopens]
        rfl
    | ok _ =>
      obtain ⟨hcode, hoperator⟩ := not_or.mp hstate
      have hruns : Runs request.result :=
        ⟨not_not.mp hcode, Bool.not_eq_false _ ▸ hoperator, hopens⟩
      refine (writeRows_spec hsocket hfd hempty hruns).post ?_
      rintro r s ⟨hr, leaked, hanswered, hleaked⟩
      exact ⟨hr, leaked, hanswered, hleaked.trans ⟨fun h _ => h, fun h => h hruns⟩⟩

/-- Of the whole answer nothing waits any more. -/
theorem writeResult_spec (hsocket : socket.Reliable) (hfd : 0 ≤ w.fd)
    (hempty : w.ring.dataSize = 0) (request : SqlRequest) :
    Triple (fun s => s = w) (writeResult socket request)
      (fun _ s => ∃ leaked, s.sent = w.sent ++ (leaked ++ answer request) ∧
        s.ring.dataSize = 0 ∧ s.ring.capacity = w.ring.capacity ∧ s.fd = w.fd ∧
        (leaked = [] ↔ Fits w.ring.capacity request)) fun _ _ => False := by
  unfold writeResult
  refine (writeResultInternal_spec hsocket hfd hempty request).bind fun r => ?_
  obtain ⟨rc, needDisconnect⟩ := r
  refine Triple.of_and ?_
  rintro rfl s₁ ⟨leaked, hanswered, hleaked⟩
  have hfd₁ : 0 ≤ s₁.fd := hanswered.fd ▸ hfd
  dsimp only
  rw [if_neg Bool.false_ne_true]
  refine ((writes_writeDebug hsocket request).attempt hfd₁).bind (fun debugged => ?_) s₁ rfl
  refine Triple.of_and ?_
  rintro rfl s₂ hdebug
  have hfd₂ : 0 ≤ s₂.fd := hdebug.fd ▸ hfd₁
  refine ((@writes_writen _ sendMessageDelimiter hsocket).attempt hfd₂).bind (fun ended => ?_)
    s₂ rfl
  refine Triple.of_and ?_
  rintro rfl s₃ hended
  have hfd₃ : 0 ≤ s₃.fd := hended.fd ▸ hfd₂
  have hall := (hanswered.wrote hdebug).wrote hended
  refine Triple.get_bind ((attempt_flush hsocket hfd₃).bind fun _ => Triple.pure ?_) s₃ rfl
  rintro s ⟨hflushed, hdone⟩
  have hsent := hflushed.all.trans hall.all
  rw [RingBuffer.contents_eq_nil hdone, List.append_nil] at hsent
  exact ⟨leaked, hsent, hdone, hflushed.capacity.trans hall.capacity, hflushed.fd.trans hall.fd,
    hleaked⟩

/-! ## Requests on a connection -/

/-- A new connection. -/
def connect (fd : Nat) : BufferedWriter := ⟨fd, .create 131072 (by decide), [], 0⟩

/-- A request is answered. -/
def serve (socket : Socket) (w : BufferedWriter) (request : SqlRequest) : Option BufferedWriter :=
  match writeResult socket request w with
  | .ok _ w => some w
  | .error _ w => some w

/-- The peer receives the answer, and nothing else. -/
def Delivers (socket : Socket) (w : BufferedWriter) (request : SqlRequest) : Prop :=
  ∀ w', serve socket w request = some w' → w'.sent = w.sent ++ answer request

/-- Between two requests nothing waits. -/
structure Ready (w : BufferedWriter) : Prop where
  fd : 0 ≤ w.fd
  empty : w.ring.dataSize = 0
  capacity : w.ring.capacity = 131072

theorem serve_spec (hsocket : socket.Reliable) (h : Ready w) (request : SqlRequest) :
    ∃ leaked w', serve socket w request = some w' ∧ Ready w' ∧
      w'.sent = w.sent ++ (leaked ++ answer request) ∧
      (leaked = [] ↔ Fits 131072 request) := by
  have hspec := writeResult_spec hsocket h.fd h.empty request w rfl
  unfold serve
  cases hrun : writeResult socket request w with
  | ok r w' =>
    rw [hrun, h.capacity] at hspec
    obtain ⟨leaked, hsent, hempty, hcapacity, hfd, hfits⟩ := hspec
    exact ⟨leaked, w', rfl, ⟨hfd ▸ h.fd, hempty, hcapacity⟩, hsent, hfits⟩
  | error rc w' =>
    rw [hrun] at hspec
    exact hspec.elim

theorem delivers_step_iff (hsocket : socket.Reliable) (h : Ready w) (request : SqlRequest) :
    Delivers socket w request ↔ Fits 131072 request := by
  obtain ⟨leaked, w', hserve, -, hsent, hfits⟩ := serve_spec hsocket h request
  rw [← hfits]
  constructor
  · intro hdelivers
    have heq := hsent.symm.trans (hdelivers w' hserve)
    have hsame := List.append_cancel_left heq
    exact List.append_left_eq_self.mp hsame
  · rintro rfl w'' hserve'
    obtain rfl := Option.some.inj (hserve.symm.trans hserve')
    exact hsent

/-- On a connection that does not break, each request gets its answer exactly if no result fails
after more bytes than the buffer has room for. -/
theorem delivers_iff (socket : Socket) (hsocket : socket.Reliable) (fd : Nat)
    (requests : List SqlRequest) :
    (∀ t ∈ taken (serve socket) (connect fd) requests, Delivers socket t.1 t.2) ↔
      ∀ t ∈ taken (serve socket) (connect fd) requests, Fits 131072 t.2 := by
  apply @forall_taken_iff _ _ (serve socket) (Delivers socket) (fun _ => Fits 131072) Ready
  · intro w request h
    exact delivers_step_iff hsocket h request
  · intro w request w' h _ hserve
    obtain ⟨leaked, w'', hserve', hready, -⟩ := serve_spec hsocket h request
    obtain rfl := Option.some.inj (hserve'.symm.trans hserve)
    exact hready
  · exact ⟨Int.natCast_nonneg fd, rfl, rfl⟩

/-- All bytes are taken at once. -/
def wideSocket : Socket where
  accepts _ n := some n
  accepts_spec := by
    rintro _ n m ⟨⟩ hpos
    exact ⟨hpos, Nat.le_refl _⟩

/-- A query with one column that gives rows and then a return code. -/
def oneColumn (rows : List (List UInt8)) (last : RC) : SqlRequest where
  result :=
    { returnCode := none
      stateString := []
      hasOperator := true
      opens := .ok ()
      header := [[105]]
      rows := .tuples (rows.map fun cell => [.ok cell]) last
      closes := .ok () }
  sqlDebugOn := false
  debugInfos := []

theorem fits_oneColumn {capacity : Nat} {rows : List (List UInt8)} {last : RC}
    (h : last = .recordEof) : Fits capacity (oneColumn rows last) := by
  rintro - ⟨rc, hfails⟩
  have hnone : (rowsText (rows.map fun cell => [Except.ok cell]) last).2 = .ok () := by
    induction rows with
    | nil => exact if_pos h
    | cons row rows ih => exact ih hfails
  exact nomatch hnone.symm.trans hfails

/-- A query that succeeds and one that fails after a row. -/
theorem delivers_rows : wideSocket.Reliable ∧
    ∀ t ∈ taken (serve wideSocket) (connect 3)
      [oneColumn [[49], [50]] .recordEof, oneColumn [[49]] .ioerrRead],
      Delivers wideSocket t.1 t.2 := by
  have hsocket : wideSocket.Reliable := fun _ _ _ => rfl
  refine ⟨hsocket, (delivers_iff wideSocket hsocket 3 _).mpr fun t ht => ?_⟩
  have hrequest := mem_of_mem_taken ht
  rcases List.mem_pair.mp hrequest with h | h <;> rw [h]
  · exact fits_oneColumn rfl
  · exact fun _ _ => by decide

theorem resultText_oneColumn (cell : List UInt8) {last : RC} (h : last ≠ .recordEof) :
    resultText (oneColumn [cell] last).result.rows = (cell ++ newline, .error last) := by
  simp [oneColumn, resultText, rowsText, cellsText, h]

theorem not_fits_oneColumn {capacity : Nat} {cell : List UInt8} {last : RC}
    (h : last ≠ .recordEof) (hlong : capacity ≤ cell.length) :
    ¬ Fits capacity (oneColumn [cell] last) := by
  intro hfits
  have hrows := resultText_oneColumn cell h
  have hlength := hfits ⟨rfl, rfl, rfl⟩ ⟨last, congrArg Prod.snd hrows⟩
  rw [hrows, List.length_append, List.length_append] at hlength
  have hnewline : newline.length = 1 := rfl
  omega

theorem not_delivers_of_long {cell : List UInt8} (hlong : 131072 ≤ cell.length) :
    ¬ ∀ t ∈ taken (serve wideSocket) (connect 3) [oneColumn [cell] .ioerrRead],
      Delivers wideSocket t.1 t.2 := by
  intro hall
  have hsocket : wideSocket.Reliable := fun _ _ _ => rfl
  have hready : Ready (connect 3) := ⟨Int.natCast_nonneg 3, rfl, rfl⟩
  have hfits := (delivers_step_iff hsocket hready _).mp (hall _ List.mem_cons_self)
  exact not_fits_oneColumn (by decide) hlong hfits

/-- The long cell of a row has been sent when the next row can't be read. -/
theorem not_delivers_long : ¬ ∀ t ∈ taken (serve wideSocket) (connect 3)
    [oneColumn [List.replicate 131072 49] .ioerrRead], Delivers wideSocket t.1 t.2 :=
  not_delivers_of_long (Nat.le_of_eq List.length_replicate.symm)

end PlainCommunicator

end ObHtap
