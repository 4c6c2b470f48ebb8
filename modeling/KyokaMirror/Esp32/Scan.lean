import KyokaMirror.Users

set_option autoImplicit false

namespace KyokaMirror.Esp32

open Library.Copy (copy)
open Users

/-- What the receive loop of `esp32_thread_entry` keeps between two messages. -/
structure Buffers where
  uartRxBuffer : Memory
  appBuffer : Memory
  length : Nat
  readstate : Bool

/-- The globals that the commands of the scan read and change. -/
structure Globals where
  userDate : Memory
  userNum : Nat
  faceFlag : Nat
  userQuanFlag : Nat

inductive Access where
  | readRx (index : Nat)
  | writeApp (index : Nat)
  deriving DecidableEq, Repr

def Access.index : Access → Nat
  | .readRx index => index
  | .writeApp index => index

/-- One line of the user list: the `id`, `name` and `psw` fields in full. -/
structure Row where
  id : List UInt8
  name : List UInt8
  psw : List UInt8
  deriving DecidableEq, Repr

/-- What a keyword of the stream makes the thread do. The third variant of
`get` only assigns a local, and `face` without a pending face only prints. -/
inductive Action where
  | stateReply
  | getNumber
  | getList (rows : List Row)
  | add
  | faceReport
  | sign (nums : Nat)
  deriving DecidableEq, Repr

/-- The scan of one delivery: the loop index, the buffers and globals it works
on, and in order every array access and every action so far. -/
structure Scan where
  i : Nat
  buf : Buffers
  glob : Globals
  accesses : List Access
  actions : List Action

def kwState : List UInt8 := ascii "State"
def kwGet : List UInt8 := ascii "get"
def kwAdd : List UInt8 := ascii "add"
def kwFace : List UInt8 := ascii "face"
def kwSign : List UInt8 := ascii "sign"
def kwFrame : List UInt8 := ascii "\x7b\""

def charN : UInt8 := 78
def charDot : UInt8 := 46

def Scan.read (s : Scan) (index : Nat) : Scan :=
  { s with accesses := s.accesses ++ [.readRx index] }

def Scan.act (s : Scan) (action : Action) : Scan :=
  { s with actions := s.actions ++ [action] }

/-- Evaluates a keyword test at the loop index. -/
def Scan.look (s : Scan) (kw : List UInt8) : Scan :=
  { s with accesses := s.accesses ++ (keywordReads s.buf.uartRxBuffer s.i kw).map .readRx }

def Scan.sees (s : Scan) (kw : List UInt8) : Bool := keyword s.buf.uartRxBuffer s.i kw

def stateTest (s : Scan) : Scan :=
  if s.sees kwState then (s.look kwState).act .stateReply else s.look kwState

def rowAt (table : Memory) (row : Nat) : Row :=
  ⟨fieldBytes table row .id, fieldBytes table row .name, fieldBytes table row .psw⟩

/-- The loop `while (k)` of the list reply: it shows `user_date_t[user_num - k]`
and moves the index of the surrounding scan once per user. -/
def listLoop (glob : Globals) : Nat → Nat → Nat × List Row
  | 0, i => (i, [])
  | k + 1, i =>
      let rest := listLoop glob k (i + 1)
      (rest.1, rowAt glob.userDate (glob.userNum - (k + 1)) :: rest.2)

def getTest (s : Scan) : Scan :=
  if s.sees kwGet then
    if s.buf.uartRxBuffer (s.i + 7) == charN then
      (((s.look kwGet).read (s.i + 7)).read (s.i + 8)).act .getNumber
    else if s.buf.uartRxBuffer (s.i + 7) == charDot then
      (((s.look kwGet).read (s.i + 7)).read (s.i + 7)).read (s.i + 7)
    else
      { ((s.look kwGet).read (s.i + 7)).read (s.i + 7) with
        i := (listLoop s.glob s.glob.userNum s.i).1
        actions := s.actions ++ [.getList (listLoop s.glob s.glob.userNum s.i).2] }
  else s.look kwGet

def addUser (glob : Globals) : Globals :=
  let byId := store glob.userDate 2 .id (literal "3") 2
  let byName := store byId 2 .name (literal "zwl") 4
  { glob with
    userDate := store byName 2 .psw (literal "12345687") 9, userNum := glob.userNum + 1 }

def addTest (s : Scan) : Scan :=
  if s.sees kwAdd then { (s.look kwAdd).act .add with glob := addUser s.glob }
  else s.look kwAdd

def faceTest (s : Scan) : Scan :=
  if s.sees kwFace then
    if s.glob.faceFlag = 1 then
      { (s.look kwFace).act .faceReport with glob := { s.glob with faceFlag := 0 } }
    else s.look kwFace
  else s.look kwFace

def signTest (s : Scan) : Scan :=
  if s.sees kwSign then
    let nums := s.glob.userQuanFlag + 1
    { (s.look kwSign).act (.sign nums) with
      glob := { s.glob with userQuanFlag := if nums = 3 then 0 else nums } }
  else s.look kwSign

/-- The accesses of `for (k = 0; k < rx_length; k++) app_buffer[length+k] =
uart_rx_buffer[j++]` with `j` starting at `i`. -/
def copyAccesses (length i rxLength : Nat) : List Access :=
  (List.range rxLength).flatMap fun k => [.readRx (i + k), .writeApp (length + k)]

/-- The test `readstate == 1 || ...` reads no byte while a frame is open. -/
def Scan.lookFrame (s : Scan) : Scan := if s.buf.readstate then s else s.look kwFrame

def jsonTest (rxLength : Nat) (s : Scan) : Scan :=
  if s.buf.readstate || s.sees kwFrame then
    { s.lookFrame with
      buf := { s.buf with
        readstate := true
        appBuffer := copy s.buf.appBuffer s.buf.uartRxBuffer s.buf.length s.i rxLength
        length := s.buf.length + 1 }
      accesses := s.lookFrame.accesses ++ copyAccesses s.buf.length s.i rxLength }
  else s.lookFrame

/-- The five command tests of one iteration; the list reply of `get` may move
the index that the tests behind it look at. -/
def commands (s : Scan) : Scan := signTest (faceTest (addTest (getTest (stateTest s))))

def scanBody (rxLength : Nat) (s : Scan) : Scan :=
  let done := jsonTest rxLength (commands s)
  { done with i := done.i + 1 }

/-- `for (i = 0; i < rx_length; i++)`. The index grows in every iteration, so
`rx_length` iterations are enough. -/
def scanLoop (rxLength : Nat) : Nat → Scan → Scan
  | 0, s => s
  | fuel + 1, s => if s.i < rxLength then scanLoop rxLength fuel (scanBody rxLength s) else s

/-- `rt_device_read` into `uart_rx_buffer`, then the terminating NUL. Bytes
behind it stay from earlier deliveries. -/
def fill (b : Memory) (bytes : List UInt8) : Memory :=
  fun a => if a = bytes.length then 0 else (bytes[a]?).getD (b a)

/-- The thread between two messages, with the accesses and actions so far and
the `json_length` values it has published. -/
structure Receiver where
  buf : Buffers
  glob : Globals
  jsonLength : Nat
  published : Nat
  accesses : List Access
  actions : List Action

/-- The bytes of one successful read. Both the message's size and the read are
capped at `sizeof(uart_rx_buffer) - 1`. -/
structure Delivery where
  bytes : List UInt8
  capped : bytes.length ≤ 127
  deriving DecidableEq, Repr

inductive Event where
  | delivery (d : Delivery)
  | timeout
  deriving DecidableEq, Repr

def startScan (r : Receiver) (bytes : List UInt8) : Scan :=
  { i := 0
    buf := { r.buf with uartRxBuffer := fill r.buf.uartRxBuffer bytes }
    glob := r.glob
    accesses := r.accesses
    actions := r.actions }

def scanDelivery (r : Receiver) (bytes : List UInt8) : Scan :=
  scanLoop bytes.length bytes.length (startScan r bytes)

def deliver (r : Receiver) (bytes : List UInt8) : Receiver :=
  let s := scanDelivery r bytes
  { r with buf := s.buf, glob := s.glob, accesses := s.accesses, actions := s.actions }

/-- The branch `result == -RT_ETIMEOUT`: publishes `app_buffer` when a frame is
open and starts over. -/
def timeout (r : Receiver) : Receiver :=
  let closed := { r with buf := { r.buf with length := 0, readstate := false } }
  if r.buf.readstate then
    { closed with jsonLength := r.buf.length, published := r.published + 1 }
  else closed

def handle (r : Receiver) : Event → Receiver
  | .delivery d => deliver r d.bytes
  | .timeout => timeout r

def run (r : Receiver) (events : List Event) : Receiver := events.foldl handle r

theorem run_delivery (r : Receiver) (d : Delivery) (rest : List Event) :
    run r (.delivery d :: rest) = run (deliver r d.bytes) rest := rfl

theorem listLoop_index (glob : Globals) (k i : Nat) : (listLoop glob k i).1 = i + k := by
  induction k generalizing i with
  | zero => rfl
  | succ k ih =>
      rw [listLoop, ih]
      omega

/-- The loop index at which `get` answers with the user list. -/
def Scan.lists (s : Scan) : Bool :=
  s.sees kwGet && s.buf.uartRxBuffer (s.i + 7) != charN &&
    s.buf.uartRxBuffer (s.i + 7) != charDot

/-- The index that the tests behind `get` look at in the same iteration. -/
def Scan.landing (s : Scan) : Nat := if s.lists then s.i + s.glob.userNum else s.i

@[simp] theorem stateTest_i (s : Scan) : (stateTest s).i = s.i := by
  unfold stateTest
  split <;> rfl

@[simp] theorem stateTest_buf (s : Scan) : (stateTest s).buf = s.buf := by
  unfold stateTest
  split <;> rfl

@[simp] theorem stateTest_glob (s : Scan) : (stateTest s).glob = s.glob := by
  unfold stateTest
  split <;> rfl

@[simp] theorem getTest_buf (s : Scan) : (getTest s).buf = s.buf := by
  unfold getTest
  split_ifs <;> rfl

@[simp] theorem getTest_glob (s : Scan) : (getTest s).glob = s.glob := by
  unfold getTest
  split_ifs <;> rfl

theorem getTest_i (s : Scan) : (getTest s).i = s.landing := by
  unfold getTest Scan.landing Scan.lists
  split_ifs
  all_goals simp_all [listLoop_index, Scan.read, Scan.look, Scan.act]

@[simp] theorem addTest_i (s : Scan) : (addTest s).i = s.i := by
  unfold addTest
  split <;> rfl

@[simp] theorem addTest_buf (s : Scan) : (addTest s).buf = s.buf := by
  unfold addTest
  split <;> rfl

@[simp] theorem faceTest_i (s : Scan) : (faceTest s).i = s.i := by
  unfold faceTest
  split_ifs <;> rfl

@[simp] theorem faceTest_buf (s : Scan) : (faceTest s).buf = s.buf := by
  unfold faceTest
  split_ifs <;> rfl

@[simp] theorem signTest_i (s : Scan) : (signTest s).i = s.i := by
  unfold signTest
  split <;> rfl

@[simp] theorem signTest_buf (s : Scan) : (signTest s).buf = s.buf := by
  unfold signTest
  split <;> rfl

@[simp] theorem commands_buf (s : Scan) : (commands s).buf = s.buf := by
  simp only [commands, signTest_buf, faceTest_buf, addTest_buf, getTest_buf, stateTest_buf]

theorem landing_congr {s t : Scan} (index : t.i = s.i) (buf : t.buf = s.buf)
    (glob : t.glob = s.glob) : t.landing = s.landing := by
  have same : t.lists = s.lists := by
    simp only [Scan.lists, Scan.sees, index, buf]
  simp only [Scan.landing, same, index, glob]

@[simp] theorem commands_i (s : Scan) : (commands s).i = s.landing := by
  simp only [commands, signTest_i, faceTest_i, addTest_i, getTest_i]
  exact landing_congr (stateTest_i s) (stateTest_buf s) (stateTest_glob s)

@[simp] theorem lookFrame_i (s : Scan) : s.lookFrame.i = s.i := by
  unfold Scan.lookFrame
  split <;> rfl

@[simp] theorem lookFrame_buf (s : Scan) : s.lookFrame.buf = s.buf := by
  unfold Scan.lookFrame
  split <;> rfl

@[simp] theorem jsonTest_i (rxLength : Nat) (s : Scan) : (jsonTest rxLength s).i = s.i := by
  unfold jsonTest
  split <;> exact lookFrame_i s

/-- The frame capture at index `i`, on the buffers alone. -/
def capture (rxLength i : Nat) (b : Buffers) : Buffers :=
  if b.readstate || keyword b.uartRxBuffer i kwFrame then
    { b with
      readstate := true
      appBuffer := copy b.appBuffer b.uartRxBuffer b.length i rxLength
      length := b.length + 1 }
  else b

theorem jsonTest_buf (rxLength : Nat) (s : Scan) :
    (jsonTest rxLength s).buf = capture rxLength s.i s.buf := by
  unfold jsonTest capture Scan.sees
  split
  · rfl
  · exact lookFrame_buf s

@[simp] theorem scanBody_i (rxLength : Nat) (s : Scan) :
    (scanBody rxLength s).i = s.landing + 1 := by
  simp only [scanBody, jsonTest_i, commands_i]

theorem scanBody_buf (rxLength : Nat) (s : Scan) :
    (scanBody rxLength s).buf = capture rxLength s.landing s.buf := by
  simp only [scanBody, jsonTest_buf, commands_i, commands_buf]

@[simp] theorem capture_uartRxBuffer (rxLength i : Nat) (b : Buffers) :
    (capture rxLength i b).uartRxBuffer = b.uartRxBuffer := by
  unfold capture
  split <;> rfl

@[simp] theorem scanBody_uartRxBuffer (rxLength : Nat) (s : Scan) :
    (scanBody rxLength s).buf.uartRxBuffer = s.buf.uartRxBuffer := by
  rw [scanBody_buf, capture_uartRxBuffer]

theorem le_landing (s : Scan) : s.i ≤ s.landing := by
  unfold Scan.landing
  split <;> omega

/-- The fuel of the scan never runs out before the index has passed the
delivery. -/
theorem scanLoop_done (rxLength fuel : Nat) (s : Scan) (enough : rxLength ≤ s.i + fuel) :
    rxLength ≤ (scanLoop rxLength fuel s).i := by
  induction fuel generalizing s with
  | zero => simpa only [scanLoop, Nat.add_zero] using enough
  | succ fuel ih =>
      rw [scanLoop]
      split
      · apply ih
        have grows := le_landing s
        rw [scanBody_i]
        omega
      · omega

end KyokaMirror.Esp32
