import KyokaMirror.Http.Bounds
import KyokaMirror.Http.Split
import KyokaMirror.Http.WebClient

set_option autoImplicit false

namespace KyokaMirror.Http

open Library.Stream Users

/-- The loop collects what the calls of `recv` deliver. -/
theorem recvAll_spec {fuel left : Nat} (enough : left ≤ fuel) (positive : 0 < left)
    (buffer : List UInt8) (conn : Socket UInt8) :
    ∃ got conn', recvAll fuel left buffer conn = (buffer ++ got, conn') ∧
      conn.stream = got ++ conn'.stream ∧ got.length ≤ left ∧ conn'.answers = conn.answers ∧
      (Steady conn → left ≤ conn.stream.length → got.length = left) := by
  induction fuel generalizing left buffer conn with
  | zero => omega
  | succ fuel ih =>
      rw [recvAll]
      rcases recv_cases conn left with ⟨bytes, conn', result, nonempty, most, stream, answers⟩ |
        ⟨conn', result, stream, answers⟩
      · have some := List.length_pos_iff.mpr nonempty
        rw [result]
        dsimp only
        split
        · rename_i last
          exact ⟨bytes, conn', rfl, stream, most, answers, fun _ _ => by omega⟩
        · rename_i more
          obtain ⟨got, conn'', again, stream', most', answers', full⟩ :=
            ih (show left - bytes.length ≤ fuel by omega) (by omega) (buffer ++ bytes) conn'
          refine ⟨bytes ++ got, conn'', by rw [again, List.append_assoc], ?_, ?_, ?_, ?_⟩
          · rw [stream, stream', List.append_assoc]
          · rw [List.length_append]
            omega
          · rw [answers', answers]
          · intro steady long
            rw [stream, List.length_append] at long
            have rest := full (fun k => by rw [answers]; exact steady k) (by omega)
            rw [List.length_append, rest]
            omega
      · rw [result]
        refine ⟨[], conn', by rw [List.append_nil], stream.symm, Nat.zero_le _, answers, ?_⟩
        intro steady long
        have left' : conn.stream ≠ [] := List.length_pos_iff.mp (by omega)
        obtain ⟨bytes, s', data, _⟩ := recv_steady steady positive left'
        rw [data] at result
        cases result

/-- A session whose response has a `Content-Length`, behind the header.
`response` is all that the server sends from there on. -/
structure KnownLength (n : Nat) (response : List UInt8) (s : Session) (delivered : List UInt8) :
    Prop where
  plain : s.chunkSz = 0
  total : s.contentLength = n
  positive : 0 < n
  remainder : s.contentRemainder + delivered.length = n
  stream : delivered ++ s.conn.stream = response

section

variable {n : Nat} {response delivered : List UInt8} {s : Session}

theorem nothingRead_eq (s : Session) (conn : Socket UInt8) :
    ∃ rc opened, nothingRead s conn = (rc, [], { s with conn := conn, opened := opened }) ∧
      rc ≤ 0 := by
  rw [nothingRead]
  split
  · exact ⟨timeoutCode, s.opened, rfl, by decide⟩
  · exact ⟨0, false, rfl, by decide⟩

/-- Nothing is read: the session stays as it is, but may be closed. -/
theorem KnownLength.idle (known : KnownLength n response s delivered) (conn : Socket UInt8)
    (same : conn.stream = s.conn.stream) (opened : Bool) :
    KnownLength n response { s with conn := conn, opened := opened } (delivered ++ []) := by
  rw [List.append_nil]
  refine ⟨known.plain, known.total, known.positive, known.remainder, ?_⟩
  dsimp only
  rw [same]
  exact known.stream

theorem readPlain_known (known : KnownLength n response s delivered) {length : Nat}
    (positive : 0 < length) (inside : length ≤ s.contentRemainder) :
    ∃ rc bytes s', readPlain s length = (rc, bytes, s') ∧
      KnownLength n response s' (delivered ++ bytes) ∧ bytes.length ≤ length ∧
      (rc = bytes.length ∧ bytes ≠ [] ∨ rc ≤ 0 ∧ bytes = []) ∧
      (Steady s.conn → length ≤ s.conn.stream.length → bytes.length = length ∧
        s'.conn.answers = s.conn.answers ∧ s'.opened = s.opened) := by
  obtain ⟨got, conn', result, stream, most, answers, full⟩ :=
    recvAll_spec (Nat.le_refl length) positive [] s.conn
  rw [List.nil_append] at result
  rw [readPlain, result]
  cases got with
  | nil =>
      obtain ⟨rc, opened, nothing, negative⟩ := nothingRead_eq s conn'
      refine ⟨rc, [], _, nothing, known.idle conn' stream.symm opened, Nat.zero_le _,
        .inr ⟨negative, rfl⟩, ?_⟩
      intro steady long
      have all := full steady long
      rw [List.length_nil] at all
      omega
  | cons first rest =>
      have counted : s.contentLength > 0 := by
        rw [known.total]
        exact Int.natCast_pos.mpr known.positive
      refine ⟨_, first :: rest, _, rfl, ⟨known.plain, known.total, known.positive, ?_, ?_⟩, most,
        .inl ⟨rfl, List.cons_ne_nil _ _⟩, ?_⟩
      · have remainder := known.remainder
        dsimp only
        rw [if_pos counted, List.length_append]
        omega
      · dsimp only
        rw [List.append_assoc, ← stream]
        exact known.stream
      · intro steady long
        exact ⟨full steady long, answers, rfl⟩

/-- The length that is left of a call of `webclient_read`. -/
theorem webclientRead_length (known : KnownLength n response s delivered) (stale : Nat → UInt8)
    (opened : s.opened = true) {length : Nat} (asked : 0 < length) (left : delivered.length < n) :
    webclientRead stale s length = readPlain s (min length s.contentRemainder) := by
  have remainder := known.remainder
  have counted : s.contentLength > 0 := by
    rw [known.total]
    exact Int.natCast_pos.mpr known.positive
  have least : (if length > s.contentRemainder then s.contentRemainder else length) =
      min length s.contentRemainder := by
    split
    · omega
    · omega
  rw [webclientRead, if_neg (by simp [opened]), if_neg (by omega),
    if_neg (fun chunked => chunked known.plain), if_pos counted, least]
  exact if_neg (by omega)

/-- One call of `webclient_read` for a known length. -/
theorem webclientRead_known (known : KnownLength n response s delivered) (stale : Nat → UInt8)
    (length : Nat) :
    ∃ rc bytes s', webclientRead stale s length = (rc, bytes, s') ∧
      KnownLength n response s' (delivered ++ bytes) ∧ bytes.length ≤ length ∧
      (rc = bytes.length ∧ bytes ≠ [] ∨ rc ≤ 0 ∧ bytes = []) := by
  have still : ∀ rc : Int, rc ≤ 0 → webclientRead stale s length = (rc, [], s) →
      ∃ rc bytes s', webclientRead stale s length = (rc, bytes, s') ∧
        KnownLength n response s' (delivered ++ bytes) ∧ bytes.length ≤ length ∧
        (rc = bytes.length ∧ bytes ≠ [] ∨ rc ≤ 0 ∧ bytes = []) := by
    intro rc negative result
    exact ⟨rc, [], s, result, known.idle s.conn rfl s.opened, Nat.zero_le _, .inr ⟨negative, rfl⟩⟩
  by_cases gone : s.opened = false
  · exact still disconnectCode (by decide) (if_pos gone)
  have opened : s.opened = true := by
    cases open' : s.opened with
    | true => rfl
    | false => exact absurd open' gone
  by_cases zero : length = 0
  · apply still 0 (Int.le_refl 0)
    rw [webclientRead, if_neg gone, if_pos zero]
  have remainder := known.remainder
  by_cases left : delivered.length < n
  · rw [webclientRead_length known stale opened (by omega) left]
    obtain ⟨rc, bytes, s', result, known', most, cases', _⟩ :=
      readPlain_known known (show 0 < min length s.contentRemainder by omega) (by omega)
    exact ⟨rc, bytes, s', result, known', by omega, cases'⟩
  · apply still 0 (Int.le_refl 0)
    have counted : s.contentLength > 0 := by
      rw [known.total]
      exact Int.natCast_pos.mpr known.positive
    have none : (if length > s.contentRemainder then s.contentRemainder else length) = 0 := by
      rw [if_pos (by omega)]
      omega
    rw [webclientRead, if_neg gone, if_neg zero, if_neg (fun chunked => chunked known.plain),
      if_pos counted, none]
    exact if_pos rfl

/-- On a connection that does not fail a call reads all that it is asked for. -/
theorem webclientRead_steady (known : KnownLength n response s delivered) (steady : Steady s.conn)
    (opened : s.opened = true) (long : n ≤ response.length) (stale : Nat → UInt8) {length : Nat}
    (asked : 0 < length) (left : delivered.length < n) :
    ∃ bytes s', webclientRead stale s length = ((bytes.length : Int), bytes, s') ∧
      bytes.length = min length (n - delivered.length) ∧
      KnownLength n response s' (delivered ++ bytes) ∧ Steady s'.conn ∧ s'.opened = true := by
  have remainder := known.remainder
  have total := congrArg List.length known.stream
  rw [List.length_append] at total
  rw [webclientRead_length known stale opened asked left]
  obtain ⟨rc, bytes, s', result, known', _, cases', full⟩ :=
    readPlain_known known (show 0 < min length s.contentRemainder by omega) (by omega)
  obtain ⟨size, answers, still⟩ := full steady (by omega)
  have positive : rc = bytes.length := by
    rcases cases' with ⟨same, _⟩ | ⟨_, rfl⟩
    · exact same
    · rw [List.length_nil] at size
      omega
  refine ⟨bytes, s', by rw [result, positive], by omega, known', ?_, by rw [still, opened]⟩
  intro k
  rw [answers]
  exact steady k

end

/-- The successful reads of the loop with the session behind it. A negative
`content_length` is the branch for chunked responses. -/
def downloadReads (stales : Nat → Nat → UInt8) (contentLength : Int) :
    Nat → Int → Session → List (List UInt8) × Session
  | 0, _, s => ([], s)
  | fuel + 1, contentPos, s =>
      let length :=
        if contentLength < 0 ∨ contentLength - contentPos > 1024 then 1024
        else (contentLength - contentPos).toNat
      let result := webclientRead (stales fuel) s length
      if result.1 ≤ 0 then ([], result.2.2)
      else if loops contentLength (contentPos + result.1) then
        let later := downloadReads stales contentLength fuel (contentPos + result.1) result.2.2
        (result.2.1 :: later.1, later.2)
      else ([result.2.1], result.2.2)

/-- A body in pieces of 1024 bytes. -/
def pieces : Nat → List UInt8 → List (List UInt8)
  | 0, _ => []
  | fuel + 1, body => if body = [] then [] else body.take 1024 :: pieces fuel (body.drop 1024)

theorem pieces_nil (fuel : Nat) : pieces fuel [] = [] := by
  cases fuel with
  | zero => rfl
  | succ fuel => rw [pieces, if_pos rfl]

theorem pieces_flatten {fuel : Nat} {body : List UInt8} (enough : body.length ≤ fuel) :
    (pieces fuel body).flatten = body := by
  induction fuel generalizing body with
  | zero => rw [List.length_eq_zero_iff.mp (Nat.le_zero.mp enough)]; rfl
  | succ fuel ih =>
      rw [pieces]
      split
      · rename_i empty
        rw [empty, List.flatten_nil]
      · rename_i nonempty
        have some := List.length_pos_iff.mpr nonempty
        rw [List.flatten_cons, ih (by rw [List.length_drop]; omega), List.take_append_drop]

theorem pieces_fuel {fuel fuel' : Nat} {body : List UInt8} (enough : body.length ≤ fuel)
    (more : fuel ≤ fuel') : pieces fuel' body = pieces fuel body := by
  induction fuel generalizing fuel' body with
  | zero =>
      rw [List.length_eq_zero_iff.mp (Nat.le_zero.mp enough), pieces_nil, pieces_nil]
  | succ fuel ih =>
      obtain ⟨fuel', rfl⟩ : ∃ k, fuel' = k + 1 := ⟨fuel' - 1, by omega⟩
      rw [pieces, pieces]
      split
      · rfl
      · rename_i nonempty
        have some := List.length_pos_iff.mpr nonempty
        rw [ih (by rw [List.length_drop]; omega) (by omega)]

section

variable {n : Nat} {response : List UInt8}

/-- The length that the loop asks for. -/
theorem asked_length (n pos : Nat) :
    (if (n : Int) < 0 ∨ (n : Int) - pos > 1024 then 1024 else ((n : Int) - pos).toNat) =
      min 1024 (n - pos) := by
  split
  · omega
  · omega

theorem downloadReads_known (stales : Nat → Nat → UInt8) (fuel : Nat) {s : Session}
    {delivered : List UInt8} (known : KnownLength n response s delivered) :
    (∀ bytes ∈ (downloadReads stales n fuel delivered.length s).1,
      1 ≤ bytes.length ∧ bytes.length ≤ 1024) ∧
    KnownLength n response (downloadReads stales n fuel delivered.length s).2
      (delivered ++ (downloadReads stales n fuel delivered.length s).1.flatten) := by
  induction fuel generalizing s delivered with
  | zero =>
      rw [downloadReads, List.flatten_nil, List.append_nil]
      refine ⟨?_, known⟩
      intro bytes member
      cases member
  | succ fuel ih =>
      obtain ⟨rc, bytes, s', result, known', most, cases'⟩ :=
        webclientRead_known known (stales fuel) (min 1024 (n - delivered.length))
      rw [downloadReads, asked_length, result]
      dsimp only
      rcases cases' with ⟨rfl, nonempty⟩ | ⟨negative, rfl⟩
      · have some := List.length_pos_iff.mpr nonempty
        rw [if_neg (by omega)]
        split
        · obtain ⟨sizes, behind⟩ := ih known'
          rw [List.length_append, Int.natCast_add] at sizes behind
          refine ⟨List.forall_mem_cons.mpr ⟨by omega, sizes⟩, ?_⟩
          rw [List.flatten_cons, ← List.append_assoc]
          exact behind
        · refine ⟨?_, ?_⟩
          · intro piece member
            rw [List.mem_singleton.mp member]
            omega
          · rw [List.flatten_singleton]
            exact known'
      · rw [if_pos negative]
        refine ⟨?_, known'⟩
        intro bytes member
        cases member

theorem downloadReads_steady (stales : Nat → Nat → UInt8) (fuel : Nat) {s : Session}
    {delivered : List UInt8} (known : KnownLength n response s delivered)
    (steady : Steady s.conn) (opened : s.opened = true) (long : n ≤ response.length) :
    (downloadReads stales n fuel delivered.length s).1 =
      pieces fuel ((response.take n).drop delivered.length) := by
  induction fuel generalizing s delivered with
  | zero => rfl
  | succ fuel ih =>
      have remainder := known.remainder
      by_cases left : delivered.length < n
      · obtain ⟨bytes, s', result, size, known', steady', opened'⟩ :=
          webclientRead_steady known steady opened long (stales fuel)
            (show 0 < min 1024 (n - delivered.length) by omega) left
        have piece : ((response.take n).drop delivered.length).take 1024 = bytes := by
          rw [List.drop_take, List.take_take, ← known'.stream, List.append_assoc,
            List.drop_left]
          rw [show min 1024 (n - delivered.length) = bytes.length by omega, List.take_left]
        have rest : (response.take n).drop delivered.length ≠ [] := by
          intro empty
          rw [empty, List.take_nil] at piece
          rw [← piece, List.length_nil] at size
          omega
        rw [downloadReads, asked_length, result, pieces, if_neg rest, piece]
        dsimp only
        rw [if_neg (by omega), List.drop_drop]
        split
        · rename_i more
          rw [loops] at more
          have later := ih known' steady' opened'
          rw [List.length_append, Int.natCast_add] at later
          dsimp only
          rw [later, show bytes.length = 1024 by omega]
        · rename_i done
          rw [loops] at done
          have last : (response.take n).drop (delivered.length + 1024) = [] := by
            rw [List.drop_eq_nil_iff, List.length_take]
            omega
          rw [last, pieces_nil]
      · obtain ⟨rc, bytes, s', result, _, most, cases'⟩ :=
          webclientRead_known known (stales fuel) (min 1024 (n - delivered.length))
        have none : (response.take n).drop delivered.length = [] := by
          rw [List.drop_eq_nil_iff, List.length_take]
          omega
        rw [downloadReads, asked_length, result, none, pieces_nil]
        dsimp only
        rw [if_pos]
        rcases cases' with ⟨rfl, _⟩ | ⟨negative, _⟩
        · omega
        · exact negative

/-- Whatever `recv` does, the reads of a download are a cut of the first bytes
of its body; where no call fails, they are the pieces of the body, however the
network cuts it. -/
theorem download_reads_body (stales : Nat → Nat → UInt8) (fuel : Nat) {s : Session}
    (known : KnownLength n response s []) :
    (∃ part, part <+: response.take n ∧ IsCut (downloadReads stales n fuel 0 s).1 part) ∧
    (Steady s.conn → s.opened = true → n ≤ response.length → n ≤ fuel →
      (downloadReads stales n fuel 0 s).1 = pieces n (response.take n) ∧
      IsCut (downloadReads stales n fuel 0 s).1 (response.take n)) := by
  obtain ⟨sizes, behind⟩ := downloadReads_known stales fuel known
  rw [List.length_nil, Int.natCast_zero] at sizes behind
  rw [List.nil_append] at behind
  constructor
  · refine ⟨_, ?_, sizes, rfl⟩
    have remainder := behind.remainder
    rw [List.prefix_take_iff]
    exact ⟨⟨_, behind.stream⟩, by omega⟩
  · intro steady opened long enough
    have all := downloadReads_steady stales fuel known steady opened long
    have short : (response.take n).length ≤ n := List.length_take_le n response
    rw [List.length_nil, Int.natCast_zero, List.drop_zero] at all
    refine ⟨?_, sizes, ?_⟩
    · rw [all, pieces_fuel short enough]
    · rw [all, pieces_flatten (by omega)]

theorem download_reads_body_two : IsCut (downloadReads (fun _ _ => 0) 2 2 0
    ⟨⟨[65, 66, 67], fun _ => .bytes 0, 0, false⟩, true, 0, 0, 2, 2⟩).1 [65, 66] :=
  ((download_reads_body (fun _ _ => 0) 2
    (show KnownLength 2 [65, 66, 67] ⟨⟨[65, 66, 67], fun _ => .bytes 0, 0, false⟩, true, 0, 0, 2, 2⟩ []
      from ⟨rfl, rfl, by decide, rfl, rfl⟩)).2 (fun _ => ⟨0, rfl⟩) rfl (by decide) (by decide)).2

end

end KyokaMirror.Http
