import MoonProto.Lib.Bytes

/-!
# Ping frames

The 57-byte Ping record of `src/protocol/control.rs` with its optional 5-byte
memory record. Both are packed and little-endian. `f64` fields are carried as
their bit patterns, `trip_delay` as the bits of its `i32`.
-/

namespace MoonProto

open Codec List

/-- `PING_SIZE`. -/
def pingSize : Nat := 57

/-- `PING_MEMORY_INFO_SIZE`. -/
def pingMemoryInfoSize : Nat := 5

/-- `PING_FLAG_MEMORY_INFO`. -/
def pingFlagMemoryInfo : UInt8 := 1

structure PingMemoryInfo where
  usedMemoryMb : UInt16
  freePhysicalMemoryMb : UInt16
  cores : UInt8
deriving DecidableEq

structure PingTelemetry where
  momentCpuPercent : UInt8
  totalCpuPercent : UInt8
  memory : Option PingMemoryInfo
deriving DecidableEq

structure PingFrame where
  time : UInt64
  initialTime : UInt64
  tripDelay : UInt32
  pmtu : UInt16
  globalTimingOrders : UInt16
  overheat : UInt8
  rsq : UInt8
  ackSession : UInt32
  momentCpuPercent : UInt8
  totalCpuPercent : UInt8
  memory : Option PingMemoryInfo
  ackWordsOffset : Nat
deriving DecidableEq

namespace PingFrame

/-- The memory record behind the Ping record and the offset of the first ACK
word. A frame that announces the record but is too short for it has no ACK
words at all. -/
def readMemory (data : Bytes) (flags : UInt8) : Option PingMemoryInfo × Nat :=
  if flags &&& pingFlagMemoryInfo != 0 then
    if pingSize + pingMemoryInfoSize ≤ data.length then
      (some {
        usedMemoryMb := readU16 (field data pingSize 2)
        freePhysicalMemoryMb := readU16 (field data (pingSize + 2) 2)
        cores := byteAt data (pingSize + 4) },
        pingSize + pingMemoryInfoSize)
    else (none, data.length)
  else (none, pingSize)

def read (data : Bytes) : Option PingFrame :=
  if data.length < pingSize then none
  else
    let (memory, ackWordsOffset) := readMemory data (byteAt data 56)
    some {
      time := readU64 (field data 0 8)
      initialTime := readU64 (field data 8 8)
      tripDelay := readU32 (field data 16 4)
      pmtu := readU16 (field data 20 2)
      globalTimingOrders := readU16 (field data 22 2)
      overheat := byteAt data 24
      rsq := byteAt data 41
      ackSession := readU32 (field data 50 4)
      momentCpuPercent := byteAt data 54
      totalCpuPercent := byteAt data 55
      memory, ackWordsOffset }

/-- The fixed record of a response up to the `ack_start` field. -/
def responseHead (ping : PingFrame) (correctedNow totalSent totalRecv : UInt64) : Bytes :=
  u64Bytes correctedNow ++ u64Bytes ping.initialTime ++ u32Bytes ping.tripDelay
    ++ u16Bytes ping.pmtu ++ u16Bytes ping.globalTimingOrders ++ [ping.overheat]
    ++ u64Bytes totalSent ++ u64Bytes totalRecv ++ [ping.rsq]

def memoryBytes : Option PingMemoryInfo → Bytes
  | none => []
  | some m => u16Bytes m.usedMemoryMb ++ u16Bytes m.freePhysicalMemoryMb ++ [m.cores]

/-- The three bytes behind the session: CPU loads and flags. -/
def statusBytes (telemetry : PingTelemetry) : Bytes :=
  [telemetry.momentCpuPercent, telemetry.totalCpuPercent,
    if telemetry.memory.isSome then pingFlagMemoryInfo else 0]

/-- `response_bytes`: the frame with our clock, counters, ACK start, session and
telemetry written over the peer's. -/
def responseBytes (ping : PingFrame) (correctedNow totalSent totalRecv ackStart : UInt64)
    (ackSession : UInt32) (telemetry : PingTelemetry) : Bytes :=
  ping.responseHead correctedNow totalSent totalRecv
    ++ (u64Bytes ackStart ++ (u32Bytes ackSession
    ++ (statusBytes telemetry ++ memoryBytes telemetry.memory)))

@[simp] theorem responseHead_length (ping : PingFrame) (now sent recv : UInt64) :
    (ping.responseHead now sent recv).length = 42 := by
  simp [responseHead]

/-- Where the ACK words of a response start. -/
def ackWordsStart (telemetry : PingTelemetry) : Nat :=
  if telemetry.memory.isSome then 62 else 57

theorem responseBytes_length (ping : PingFrame) (now sent recv start : UInt64)
    (session : UInt32) (telemetry : PingTelemetry) :
    (ping.responseBytes now sent recv start session telemetry).length
      = ackWordsStart telemetry := by
  unfold responseBytes ackWordsStart
  cases telemetry.memory <;> simp [memoryBytes, statusBytes]

section Response

variable (ping : PingFrame) (now sent recv start : UInt64) (session : UInt32)
  (telemetry : PingTelemetry) (words : Bytes)

theorem responseBytes_append : ping.responseBytes now sent recv start session telemetry ++ words
      = ping.responseHead now sent recv ++ (u64Bytes start ++ (u32Bytes session
        ++ (statusBytes telemetry ++ (memoryBytes telemetry.memory ++ words)))) := by
  simp [responseBytes]

theorem responseBytes_session :
    readU32 (field (ping.responseBytes now sent recv start session telemetry ++ words) 50 4)
      = session := by
  have h1 := field_append_right (ping.responseHead now sent recv) (u64Bytes start ++
    (u32Bytes session ++ (statusBytes telemetry ++ (memoryBytes telemetry.memory ++ words)))) 8 4
  have h2 := field_append_right (u64Bytes start) (u32Bytes session ++ (statusBytes telemetry ++
    (memoryBytes telemetry.memory ++ words))) 0 4
  have h3 := field_append_left (u32Bytes session)
    (statusBytes telemetry ++ (memoryBytes telemetry.memory ++ words))
  rw [responseHead_length] at h1
  rw [u64Bytes_length] at h2
  rw [u32Bytes_length] at h3
  rw [responseBytes_append, h1, h2, h3, readU32_u32Bytes]

theorem responseBytes_flags :
    byteAt (ping.responseBytes now sent recv start session telemetry ++ words) 56
      = if telemetry.memory.isSome then pingFlagMemoryInfo else 0 := by
  have h1 := byteAt_append_right (ping.responseHead now sent recv ++ (u64Bytes start ++
    u32Bytes session)) (statusBytes telemetry ++ (memoryBytes telemetry.memory ++ words)) 2
  simp only [length_append, responseHead_length, u64Bytes_length, u32Bytes_length,
    append_assoc] at h1
  rw [responseBytes_append]
  exact h1

/-- **Reading a response back.** Whatever follows it, a response parses, with
the session it was given, and its ACK words start right behind it. -/
theorem read_responseBytes :
    ∃ f, read (ping.responseBytes now sent recv start session telemetry ++ words) = some f ∧
      f.ackSession = session ∧ f.ackWordsOffset = ackWordsStart telemetry := by
  have hdlen : (ping.responseBytes now sent recv start session telemetry ++ words).length
      = ackWordsStart telemetry + words.length := by
    rw [length_append, responseBytes_length]
  have hge : 57 ≤ ackWordsStart telemetry := by unfold ackWordsStart; split <;> omega
  have hmem : (readMemory (ping.responseBytes now sent recv start session telemetry ++ words)
      (byteAt (ping.responseBytes now sent recv start session telemetry ++ words) 56)).2
      = ackWordsStart telemetry := by
    rw [responseBytes_flags]
    unfold readMemory
    cases hm : telemetry.memory.isSome with
    | false => simp [ackWordsStart, hm, pingSize]
    | true =>
      have h62 : pingSize + pingMemoryInfoSize
          ≤ (ping.responseBytes now sent recv start session telemetry ++ words).length := by
        simp [hdlen, ackWordsStart, hm, pingSize, pingMemoryInfoSize]
      rw [if_pos (by simp [pingFlagMemoryInfo]), if_pos h62]
      simp [ackWordsStart, hm, pingSize, pingMemoryInfoSize]
  unfold read
  rw [if_neg (by rw [hdlen, pingSize]; omega)]
  exact ⟨_, rfl, responseBytes_session ping now sent recv start session telemetry words, hmem⟩

/-- The ACK start of a response sits at bytes 42 to 50, whatever follows. -/
theorem slice_ackStart :
    slice (ping.responseBytes now sent recv start session telemetry ++ words) 42 50
      = some (u64Bytes start) := by
  have h := slice_append_mid (ping.responseHead now sent recv) (u64Bytes start)
    (u32Bytes session ++ (statusBytes telemetry ++ (memoryBytes telemetry.memory ++ words)))
  rw [responseHead_length, u64Bytes_length] at h
  rw [responseBytes_append]
  exact h

end Response

end PingFrame

end MoonProto
