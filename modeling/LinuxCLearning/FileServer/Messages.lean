import LinuxCLearning.Base.Link
import LinuxCLearning.Base.Schedule
import LinuxCLearning.FileServer.Transfer

/-! `send_all` and `recv_all` on a stream whose calls move as much as they like or fail: the
messages that go in at one end come out at the other. -/

namespace LinuxCLearning.FileServer

open Proc

section Loops
variable {σ : Type} {state : σ}

theorem sendAll_call {buffer : Bytes} (more : buffer ≠ []) (inbox : Bytes) (extra : Nat)
    (schedule : List (Option Nat)) :
    (sendAll buffer).play state inbox (some extra :: schedule) =
      ((sendAll (buffer.drop (min (extra + 1) buffer.length))).play state inbox schedule).after
        (buffer.take (min (extra + 1) buffer.length)) := by
  have positive : min (extra + 1) buffer.length ≠ 0 :=
    (lt_min (Nat.succ_pos _) (List.length_pos_iff.mpr more)).ne'
  conv_lhs => rw [sendAll, if_neg more, play]
  simp only [Bool.false_eq_true, if_false, if_neg positive]

/-- The loop of `send_all` moves the front of its buffer. -/
theorem sendAll_course (buffer inbox : Bytes) (schedule : List (Option Nat)) :
    ∃ moved, ((sendAll buffer).play state inbox schedule).sent = buffer.take moved ∧
      ((sendAll buffer).play state inbox schedule).inbox = inbox ∧
      Course true false False buffer.length schedule moved
        ((sendAll buffer).play state inbox schedule).ended
        ((sendAll buffer).play state inbox schedule).rest := by
  induction schedule generalizing buffer with
  | nil =>
    rw [sendAll]
    split
    · rename_i empty
      rw [empty]
      exact ⟨0, rfl, rfl, .succeeds⟩
    · rename_i more
      exact ⟨0, rfl, rfl, .waits (List.length_pos_iff.mpr more) (.inl rfl)⟩
  | cons call schedule ih =>
    by_cases empty : buffer = []
    · rw [sendAll, if_pos empty, empty]
      exact ⟨0, rfl, rfl, .succeeds⟩
    · have some_bytes : 0 < buffer.length := List.length_pos_iff.mpr empty
      cases call with
      | none =>
        rw [sendAll, if_neg empty]
        exact ⟨0, rfl, rfl, .fails some_bytes⟩
      | some extra =>
        rw [sendAll_call empty]
        generalize size : min (extra + 1) buffer.length = count
        have positive : 0 < count := size ▸ lt_min (Nat.succ_pos _) some_bytes
        have inside : count ≤ buffer.length := size ▸ min_le_right _ _
        obtain ⟨moved, sent, kept, course⟩ := ih (buffer.drop count)
        rw [List.length_drop] at course
        have whole : count + (buffer.length - count) = buffer.length := Nat.add_sub_cancel' inside
        have called : Course true false False (count + (buffer.length - count))
            (some extra :: schedule) (count + moved) _ _ :=
          course.moves positive
        rw [whole] at called
        refine ⟨count + moved, ?_, kept, called⟩
        rw [Play.after, sent, List.take_add]

/-- A call of `recv` in `recv_all`, when there is something to receive. -/
theorem recvAll_call {missing : Nat} (more : missing ≠ 0) (received : Bytes) {stream : Bytes}
    (available : stream ≠ []) (extra : Nat) (schedule : List (Option Nat)) :
    (recvAll missing received).play state stream (some extra :: schedule) =
      (recvAll (missing - (stream.take (min (extra + 1) missing)).length)
        (received ++ stream.take (min (extra + 1) missing))).play state
          (stream.drop (min (extra + 1) missing)) schedule := by
  have some_bytes : stream.take (min (extra + 1) missing) ≠ [] := by
    intro nothing
    rcases List.take_eq_nil_iff.mp nothing with zero | empty
    · omega
    · exact available empty
  conv_lhs => rw [recvAll, if_neg more, play]
  simp only [if_neg available, if_neg some_bytes]

/-- The loop of `recv_all` takes the front of the stream, and stores it when that is all. -/
theorem recvAll_course {blocked : Prop} (missing : Nat) (received stream : Bytes)
    (schedule : List (Option Nat)) (dry : stream.length < missing → blocked) :
    ∃ moved, moved ≤ stream.length ∧
      ((recvAll missing received).play state stream schedule).sent = [] ∧
      ((recvAll missing received).play state stream schedule).inbox = stream.drop moved ∧
      Course (some (received ++ stream.take missing)) none blocked missing schedule moved
        ((recvAll missing received).play state stream schedule).ended
        ((recvAll missing received).play state stream schedule).rest := by
  induction schedule generalizing missing received stream with
  | nil =>
    rw [recvAll]
    split
    · rename_i none_missing
      rw [none_missing, List.take_zero, List.append_nil]
      exact ⟨0, Nat.zero_le _, rfl, rfl, .succeeds⟩
    · rename_i more
      exact ⟨0, Nat.zero_le _, rfl, rfl, .waits (Nat.pos_of_ne_zero more) (.inl rfl)⟩
  | cons call schedule ih =>
    by_cases none_missing : missing = 0
    · rw [recvAll, if_pos none_missing, none_missing, List.take_zero, List.append_nil]
      exact ⟨0, Nat.zero_le _, rfl, rfl, .succeeds⟩
    · have more : 0 < missing := Nat.pos_of_ne_zero none_missing
      cases call with
      | none =>
        rw [recvAll, if_neg none_missing]
        exact ⟨0, Nat.zero_le _, rfl, rfl, .fails more⟩
      | some extra =>
        by_cases available : stream = []
        · have waits : (recvAll missing received).play state stream (some extra :: schedule) =
              ⟨none, state, [], [], some extra :: schedule⟩ := by
            rw [recvAll, if_neg none_missing, play, if_pos available]
          rw [waits, available]
          rw [available] at dry
          exact ⟨0, Nat.zero_le _, rfl, rfl, .waits more (.inr (dry more))⟩
        · rw [recvAll_call none_missing received available]
          have size : (stream.take (min (extra + 1) missing)).length =
              min (min (extra + 1) missing) stream.length :=
            List.length_take
          have some_bytes : 0 < stream.length := List.length_pos_iff.mpr available
          generalize count_eq : min (min (extra + 1) missing) stream.length = count at size
          have front : stream.take (min (extra + 1) missing) = stream.take count := by
            rw [← count_eq, List.take_eq_take_min]
          have behind : stream.drop (min (extra + 1) missing) = stream.drop count := by
            rw [← count_eq, List.drop_eq_drop_min]
          rw [size, front, behind]
          obtain ⟨moved, inside, sent, kept, course⟩ :=
            ih (missing - count) (received ++ stream.take count) (stream.drop count)
            (by rw [List.length_drop]; intro short; apply dry; omega)
          rw [List.length_drop] at inside
          have whole : count + (missing - count) = missing := Nat.add_sub_cancel' (by omega)
          have called : Course _ none blocked (count + (missing - count)) (some extra :: schedule)
              (count + moved) _ _ :=
            course.moves (by omega)
          rw [whole, List.append_assoc, ← List.take_add, whole] at called
          refine ⟨count + moved, by omega, sent, ?_, called⟩
          rw [kept, List.drop_drop]

end Loops

/-- What `send_all` promises of a buffer: the result 0 if and only if the stream has received it
exactly, and -1 only where the last call has failed, with the front of the buffer sent; and an
end when there are enough answers. -/
structure SendsAll {σ : Type} (buffer : Bytes) (schedule : List (Option Nat))
    (run : Play UInt8 σ Bool) : Prop where
  returns_zero : run.ended = some true ↔ run.sent = buffer
  front : run.sent <+: buffer
  failed : run.ended = some false → ∃ calls, none ∉ calls ∧ schedule = calls ++ none :: run.rest
  used : run.ended ≠ some false → (∃ calls, schedule = calls ++ run.rest) ∧
    schedule.length ≤ buffer.length + run.rest.length
  ends : buffer.length ≤ schedule.length → run.ended ≠ none

/-- What `recv_all` promises: the result 0 if and only if it has taken exactly the next bytes of
the stream, which are then stored, and -1 only where the last call has failed; and an end when
there are enough bytes and answers. -/
structure ReceivesAll {σ : Type} (len : Nat) (stream : Bytes) (schedule : List (Option Nat))
    (run : Play UInt8 σ (Option Bytes)) :
    Prop where
  returns_zero : run.ended = some (some (stream.take len)) ↔ len ≤ stream.length ∧
    run.inbox = stream.drop len
  stores : ∀ stored, run.ended = some (some stored) → stored = stream.take len ∧ stored.length = len
  front : ∃ count ≤ len, run.inbox = stream.drop count
  failed : run.ended = some none → ∃ calls, none ∉ calls ∧ schedule = calls ++ none :: run.rest
  used : run.ended ≠ some none → (∃ calls, schedule = calls ++ run.rest) ∧
    schedule.length ≤ len + run.rest.length
  ends : len ≤ stream.length → len ≤ schedule.length → run.ended ≠ none

/-- Messages sent one after the other, until one fails. -/
def sendMessages {σ : Type} : List Bytes → Proc UInt8 σ Bool
  | [] => .done true
  | message :: messages =>
    sendAll message >>= fun sent => if sent then sendMessages messages else .done false

/-- Messages of given lengths received one after the other, until one fails: those that have
been received, and whether they are all. -/
def recvMessages {σ : Type} : List Nat → List Bytes → Proc UInt8 σ (List Bytes × Bool)
  | [], received => .done (received, true)
  | len :: lens, received => recvAll len [] >>= fun stored =>
    match stored with
    | none => .done (received, false)
    | some message => recvMessages lens (received ++ [message])

section Streams
variable {σ : Type} {state : σ}

theorem sendAll_sends (buffer inbox : Bytes) (schedule : List (Option Nat)) :
    SendsAll buffer schedule ((sendAll buffer).play state inbox schedule) := by
  obtain ⟨moved, sent, -, course⟩ := @sendAll_course σ state buffer inbox schedule
  have different : true ≠ false := by decide
  refine ⟨?_, ?_, ?_, ?_, ?_⟩
  · rw [course.success_iff different, sent]
    constructor
    · rintro rfl
      exact List.take_length
    · intro whole
      have length := congrArg List.length whole
      rw [List.length_take] at length
      exact le_antisymm course.moved_le (by omega)
  · rw [sent]
    exact List.take_prefix _ _
  · intro failed
    exact (course.failed_call different failed).2
  · intro going
    obtain ⟨split, short⟩ := course.used going
    exact ⟨split, short.trans (Nat.add_le_add_right course.moved_le _)⟩
  · exact course.ends different not_false

theorem recvAll_receives (len : Nat) (stream : Bytes) (schedule : List (Option Nat)) :
    ReceivesAll len stream schedule ((recvAll len []).play state stream schedule) := by
  obtain ⟨moved, inside, -, inbox, course⟩ :=
    @recvAll_course σ state (stream.length < len) len [] stream schedule id
  have different : some ([] ++ stream.take len) ≠ none := Option.some_ne_none _
  have success := course.success_iff different
  rw [List.nil_append] at success
  refine ⟨?_, ?_, ⟨moved, course.moved_le, inbox⟩, ?_, ?_, ?_⟩
  · rw [success, inbox]
    constructor
    · rintro rfl
      exact ⟨inside, rfl⟩
    · rintro ⟨available, same⟩
      have length := congrArg List.length same
      rw [List.length_drop, List.length_drop] at length
      omega
  · intro stored returned
    rcases course.ended_cases with all | failed | waiting
    · have same : stored = stream.take len :=
        Option.some.inj (Option.some.inj (returned.symm.trans all))
      have complete : moved = len := success.mp (by rw [returned, same])
      refine ⟨same, ?_⟩
      rw [same, List.length_take]
      omega
    · rw [returned] at failed
      cases failed
    · rw [returned] at waiting
      cases waiting
  · intro failed
    exact (course.failed_call different failed).2
  · intro going
    obtain ⟨split, short⟩ := course.used going
    exact ⟨split, short.trans (Nat.add_le_add_right course.moved_le _)⟩
  · intro available
    exact course.ends different (not_lt.mpr available)

/-- When every `send_all` has returned 0, the stream has received the messages. -/
theorem sendMessages_sent (messages : List Bytes) (inbox : Bytes) (schedule : List (Option Nat))
    (sent : ((sendMessages messages).play state inbox schedule).ended = some true) :
    ((sendMessages messages).play state inbox schedule).sent = messages.flatten := by
  induction messages generalizing inbox schedule state with
  | nil => rfl
  | cons message messages ih =>
    rw [sendMessages, play_bind] at sent ⊢
    have first := @sendAll_sends σ state message inbox schedule
    generalize (sendAll message).play state inbox schedule = run at sent first ⊢
    cases ended : run.ended with
    | none =>
      rw [continuePlay, ended] at sent
      cases sent
    | some result =>
      rw [continuePlay, ended] at sent ⊢
      cases result with
      | false => cases sent
      | true =>
        have later := ih run.inbox run.rest sent
        rw [List.flatten_cons, ← later, ← first.returns_zero.mp ended]
        rfl

theorem sendMessages_ends (messages : List Bytes) (inbox : Bytes) (schedule : List (Option Nat))
    (plain : none ∉ schedule) (enough : messages.flatten.length ≤ schedule.length) :
    ((sendMessages messages).play state inbox schedule).ended = some true := by
  induction messages generalizing inbox schedule state with
  | nil => rfl
  | cons message messages ih =>
    rw [sendMessages, play_bind]
    rw [List.flatten_cons, List.length_append] at enough
    have first := @sendAll_sends σ state message inbox schedule
    generalize (sendAll message).play state inbox schedule = run at first ⊢
    cases ended : run.ended with
    | none => exact absurd ended (first.ends (by omega))
    | some result =>
      rw [continuePlay, ended]
      cases result with
      | false =>
        obtain ⟨calls, -, split⟩ := first.failed ended
        rw [split] at plain
        exact absurd (List.mem_append_right _ List.mem_cons_self) plain
      | true =>
        obtain ⟨⟨calls, split⟩, short⟩ := first.used (by rw [ended]; decide)
        rw [split] at plain
        exact ih run.inbox run.rest (fun failing => plain (List.mem_append_right _ failing))
          (by omega)

/-- What the receiver of some messages has behind those that it already had: the front of them,
all of them if no call has failed, and exactly the bytes behind them left on the stream. -/
structure Delivered (messages earlier : List Bytes) (behind : Bytes) (schedule : List (Option Nat))
    (run : Play UInt8 σ (List Bytes × Bool)) : Prop where
  front : ∀ received all, run.ended = some (received, all) → ∃ part, part <+: messages ∧
    received = earlier ++ part
  whole : ∀ received, run.ended = some (received, true) →
    received = earlier ++ messages ∧ run.inbox = behind
  failed : ∀ received, run.ended = some (received, false) → none ∈ schedule
  ends : none ∉ schedule → messages.flatten.length ≤ schedule.length →
    run.ended = some (earlier ++ messages, true)

/-- A call that fails leaves what has been received so far. -/
theorem Delivered.fails (messages earlier : List Bytes) (behind : Bytes)
    {schedule : List (Option Nat)} (failing : none ∈ schedule) {run : Play UInt8 σ (List Bytes × Bool)}
    (ended : run.ended = some (earlier, false)) : Delivered messages earlier behind schedule run := by
  refine ⟨?_, ?_, fun _ _ => failing, fun plain => absurd failing plain⟩
  · intro received all same
    rw [ended] at same
    cases same
    exact ⟨[], List.nil_prefix, (List.append_nil _).symm⟩
  · intro received same
    rw [ended] at same
    cases same

/-- One message in front of those that the remaining calls receive. -/
theorem Delivered.message {messages earlier : List Bytes} {behind message : Bytes}
    {calls rest : List (Option Nat)} {run : Play UInt8 σ (List Bytes × Bool)}
    (later : Delivered messages (earlier ++ [message]) behind rest run)
    (short : (calls ++ rest).length ≤ message.length + rest.length) :
    Delivered (message :: messages) earlier behind (calls ++ rest) run := by
  have regroup (part : List Bytes) :
      earlier ++ [message] ++ part = earlier ++ message :: part := by simp
  refine ⟨?_, ?_, ?_, ?_⟩
  · intro received all returned
    obtain ⟨part, shorter, total⟩ := later.front received all returned
    refine ⟨message :: part, List.cons_prefix_cons.mpr ⟨rfl, shorter⟩, ?_⟩
    rw [total, regroup]
  · intro received returned
    obtain ⟨total, behind⟩ := later.whole received returned
    exact ⟨total.trans (regroup messages), behind⟩
  · intro received returned
    exact List.mem_append_right _ (later.failed received returned)
  · intro plain enough
    rw [List.flatten_cons, List.length_append] at enough
    rw [← regroup]
    exact later.ends (fun failing => plain (List.mem_append_right _ failing)) (by omega)

/-- `recv_all` calls with the lengths of the messages on a stream, by induction on these. -/
theorem recvMessages_delivered (messages earlier : List Bytes) (behind : Bytes)
    (schedule : List (Option Nat)) :
    Delivered messages earlier behind schedule
      ((recvMessages (messages.map List.length) earlier).play state
        (messages.flatten ++ behind) schedule) := by
  induction messages generalizing earlier schedule state with
  | nil =>
    rw [List.map_nil, recvMessages, play]
    refine ⟨?_, ?_, ?_, ?_⟩
    · rintro _ _ ⟨⟩
      exact ⟨[], List.prefix_rfl, (List.append_nil _).symm⟩
    · rintro _ ⟨⟩
      exact ⟨(List.append_nil _).symm, rfl⟩
    · rintro _ ⟨⟩
    · rw [List.append_nil]
      exact fun _ _ => rfl
  | cons message messages ih =>
    rw [List.map_cons, recvMessages, play_bind, List.flatten_cons, List.append_assoc]
    have first := @recvAll_receives σ state message.length
      (message ++ (messages.flatten ++ behind)) schedule
    have front : (message ++ (messages.flatten ++ behind)).take message.length = message :=
      List.take_left
    have rest : (message ++ (messages.flatten ++ behind)).drop message.length =
        messages.flatten ++ behind := List.drop_left
    have available : message.length ≤ (message ++ (messages.flatten ++ behind)).length := by
      rw [List.length_append]
      exact Nat.le_add_right _ _
    generalize (recvAll message.length []).play state (message ++ (messages.flatten ++ behind))
      schedule = run at first ⊢
    cases ended : run.ended with
    | none =>
      rw [continuePlay, ended]
      refine ⟨?_, ?_, ?_, ?_⟩
      · rintro _ _ ⟨⟩
      · rintro _ ⟨⟩
      · rintro _ ⟨⟩
      · intro _ enough
        rw [List.flatten_cons, List.length_append] at enough
        exact absurd ended (first.ends available (by omega))
    | some result =>
      rw [continuePlay, ended]
      cases result with
      | none =>
        obtain ⟨calls, -, split⟩ := first.failed ended
        exact .fails _ _ _ (split ▸ List.mem_append_right _ List.mem_cons_self) rfl
      | some stored =>
        obtain rfl : stored = message := (first.stores stored ended).1.trans front
        have left : run.inbox = messages.flatten ++ behind := by
          rw [← rest]
          apply (first.returns_zero.mp _).2
          rw [ended, front]
        obtain ⟨⟨calls, split⟩, short⟩ :=
          first.used (by rw [ended]; exact fun equal => by cases equal)
        have later := @ih run.state (earlier ++ [stored]) run.rest
        rw [← left] at later
        rw [split] at short ⊢
        have all := later.message short
        exact ⟨all.front, all.whole, all.failed, all.ends⟩

theorem sendMessages_follows (messages : List Bytes) :
    Follows (fun _ => True) (Ends (Returns true state)) (fun _ _ => True)
      (sendMessages messages) state
      (messages.flatten.map .sent) := by
  induction messages with
  | nil => exact .ends trivial ⟨rfl, rfl⟩
  | cons message messages ih =>
    rw [sendMessages, List.flatten_cons, List.map_append]
    exact returned_andThen (sendAll_follows trivial message) ih (dies_trivially _ _)

theorem recvMessages_follows (messages earlier : List Bytes) :
    Follows (fun _ => True) (Ends (Returns (earlier ++ messages, true) state)) (fun _ _ => True)
      (recvMessages (messages.map List.length) earlier) state (messages.flatten.map .got) := by
  induction messages generalizing earlier with
  | nil =>
    rw [List.append_nil]
    exact .ends trivial ⟨rfl, rfl⟩
  | cons message messages ih =>
    rw [List.map_cons, recvMessages, List.flatten_cons, List.map_append]
    have later := ih (earlier ++ [message])
    rw [List.append_assoc, List.singleton_append] at later
    exact returned_andThen (recvAll_follows trivial message []) later (dies_trivially _ _)

end Streams

/-- `send_all` and `recv_all` keep what they promise under every schedule of partial results and
failures. Messages of which every one has been sent are received as they were, however the two
sides split them; and both sides get there in every order of their calls, when none fails. -/
theorem messages_delivered {σ τ : Type} (state : σ) (store : τ) :
    (∀ (buffer inbox : Bytes) (schedule : List (Option Nat)),
      SendsAll buffer schedule ((sendAll buffer).play state inbox schedule)) ∧
    (∀ (len : Nat) (stream : Bytes) (schedule : List (Option Nat)),
      ReceivesAll len stream schedule ((recvAll len []).play store stream schedule)) ∧
    (∀ (messages : List Bytes) (sends recvs : List (Option Nat)),
      ((sendMessages messages).play state [] sends).ended = some true →
      Delivered messages [] [] recvs
        ((recvMessages (messages.map List.length) []).play store
          ((sendMessages messages).play state [] sends).sent recvs)) ∧
    ∀ messages : List Bytes,
      Machine.Inevitable Link.advance
        (fun link => link.left.program = .done true ∧ link.right.program = .done (messages, true) ∧
          link.right.inbox = [])
        ⟨⟨sendMessages messages, state, []⟩,
          ⟨recvMessages (messages.map List.length) [], store, []⟩, true⟩ := by
  refine ⟨sendAll_sends, recvAll_receives, ?_, ?_⟩
  · intro messages sends recvs sent
    have delivered := @recvMessages_delivered τ store messages [] [] recvs
    rw [sendMessages_sent messages [] sends sent]
    rw [List.append_nil] at delivered
    exact delivered
  · intro messages
    have received := @recvMessages_follows τ store messages []
    have dual : messages.flatten.map Mark.got = (messages.flatten.map Mark.sent).map Mark.dual := by
      rw [List.map_map, Mark.dual_comp_sent]
    rw [dual] at received
    apply (Link.dialogue_settles (sendMessages_follows messages) received).mono
    rintro link ⟨⟨sent, left, rfl, -⟩, ⟨got, right, rfl, -⟩, -, empty, -⟩
    exact ⟨left, right, empty⟩

/-- Two messages in pieces of 1, 1, 2 and 1 bytes, received in pieces of 1, 1 and 3, with answers
to spare. -/
theorem messages_delivered_pieces :
    ((recvMessages [2, 3] []).play () ((sendMessages [[1, 2], [3, 4, 5]]).play () []
        [some 0, some 1, some 1, some 9, some 9]).sent [some 0, some 7, some 7,
          some 7, some 7]).ended =
      some ([[1, 2], [3, 4, 5]], true) :=
  ((messages_delivered () ()).2.2.1 [[1, 2], [3, 4, 5]] [some 0, some 1, some 1, some 9, some 9]
    [some 0, some 7, some 7, some 7, some 7] (sendMessages_ends _ _ _ (by decide) (by decide))).ends
      (by decide) (by decide)

end LinuxCLearning.FileServer
