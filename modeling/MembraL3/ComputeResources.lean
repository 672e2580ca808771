/-
Resources of compute nodes.

`ComputeResourceAllocator` commits cores and memory of its one node to tasks and
takes them back when a commitment is released.  The ids of commitments are
printed from a hash of the node and the clock in milliseconds.

* `allocateResources_cases` — an allocation is refused and changes nothing, or it
  grants the task what it requires;
* `releaseResources_of_some` — what a release gives back.
-/
import MembraL3.ZKCompute

namespace Membra

structure NodeStatus where
  nodeId : String
  availableCpuCores : UInt64
  availableMemoryMb : UInt64
  gpuAvailable : Bool
  activeTasks : UInt64
  utilizationRatio : ℚ
  deriving DecidableEq

namespace NodeStatus

/-- `NodeStatus()`, as the map makes it for a key that it does not have. -/
def zero : NodeStatus := ⟨"", 0, 0, false, 0, 0⟩

/-- The status after a commitment. -/
def committed (status : NodeStatus) (commitment : ResourceCommitment) : NodeStatus :=
  { status with
    availableCpuCores := status.availableCpuCores - commitment.cpuCoresCommitted
    availableMemoryMb := status.availableMemoryMb - commitment.memoryMbCommitted
    activeTasks := status.activeTasks + 1
    utilizationRatio := (status.activeTasks + 1).toNat / 8 }

/-- The status after the release of a commitment. -/
def released (status : NodeStatus) (commitment : ResourceCommitment) : NodeStatus :=
  { status with
    availableCpuCores := status.availableCpuCores + commitment.cpuCoresCommitted
    availableMemoryMb := status.availableMemoryMb + commitment.memoryMbCommitted
    activeTasks := status.activeTasks - 1
    utilizationRatio := (status.activeTasks - 1).toNat / 8 }

end NodeStatus

structure ComputeResourceAllocator where
  commitments : Store String ResourceCommitment
  nodeStatuses : Store String NodeStatus

namespace ComputeResourceAllocator

def new : ComputeResourceAllocator where
  commitments := ∅
  nodeStatuses := (∅ : Store String NodeStatus).assign "node_001" ⟨"node_001", 8, 16384, true, 0, 0⟩

def requiredCpu (task : ComputeTask) : UInt64 := task.requiredComputeUnits / 1000

def requiredMemory (task : ComputeTask) : UInt64 := task.requiredComputeUnits / 10

def checkAvailability (allocator : ComputeResourceAllocator) (task : ComputeTask)
    (nodeId : String) : Bool :=
  match allocator.nodeStatuses.lookup nodeId with
  | none => false
  | some status =>
    status.availableCpuCores ≥ requiredCpu task ∧ status.availableMemoryMb ≥ requiredMemory task ∧
      (task.circuitIdentifier ≠ "" ∨ status.gpuAvailable)

/-- The id of a commitment: the first sixteen bytes of the hash. -/
def commitmentId (sha256 : Sha256) (nodeId : String) (now : Nanoseconds) : String :=
  hex ((sha256 (bytesOf (nodeId ++ toString (milliseconds now)))).toList.take 16)

/-- The status of a node, for a node that the map may not have. -/
def statusAt (allocator : ComputeResourceAllocator) (nodeId : String) : NodeStatus :=
  (allocator.nodeStatuses.lookup nodeId).getD .zero

/-- The commitment that a successful allocation makes. -/
def newCommitment (sha256 : Sha256) (status : NodeStatus) (task : ComputeTask) (nodeId : String)
    (idNow expiryNow : Nanoseconds) : ResourceCommitment :=
  let id := commitmentId sha256 nodeId idNow
  let cpu := min (requiredCpu task) status.availableCpuCores
  let memory := min (requiredMemory task) status.availableMemoryMb
  { commitmentId := id
    nodeId := nodeId
    cpuCoresCommitted := cpu
    memoryMbCommitted := memory
    gpuCommitted := status.gpuAvailable
    durationSeconds := task.timeoutSeconds
    commitmentHash := sha256 (bytesOf id ++ bytesOfWord cpu ++ bytesOfWord memory)
    expiresAt := (expiryNow.toUInt64 + task.timeoutSeconds).toInt64 }

/-- The commitment of a refused allocation. -/
def unavailable : ResourceCommitment :=
  { ResourceCommitment.default with commitmentId := "unavailable" }

def allocateResources (sha256 : Sha256) (allocator : ComputeResourceAllocator) (task : ComputeTask)
    (nodeId : String) (idNow expiryNow : Nanoseconds) :
    ResourceCommitment × ComputeResourceAllocator :=
  if !allocator.checkAvailability task nodeId then (unavailable, allocator)
  else
    let status := allocator.statusAt nodeId
    let commitment := newCommitment sha256 status task nodeId idNow expiryNow
    (commitment,
      { commitments := allocator.commitments.assign commitment.commitmentId commitment
        nodeStatuses := allocator.nodeStatuses.assign nodeId (status.committed commitment) })

def releaseResources (allocator : ComputeResourceAllocator) (commitmentId : String) :
    ComputeResourceAllocator :=
  match allocator.commitments.lookup commitmentId with
  | none => allocator
  | some commitment =>
    { commitments := allocator.commitments.erase commitmentId
      nodeStatuses := allocator.nodeStatuses.assign commitment.nodeId
        ((allocator.statusAt commitment.nodeId).released commitment) }

/-- `none` where the source returns a status of which it has set the id only. -/
def getNodeStatus (allocator : ComputeResourceAllocator) (nodeId : String) : Option NodeStatus :=
  allocator.nodeStatuses.lookup nodeId

/-! ### Calls -/

inductive Call where
  | allocateResources (task : ComputeTask) (nodeId : String) (idNow expiryNow : Nanoseconds)
  | releaseResources (commitmentId : String)
  | checkAvailability (task : ComputeTask) (nodeId : String)
  | getNodeStatus (nodeId : String)

inductive Reply where
  | allocated (commitment : ResourceCommitment)
  | released
  | available (ok : Bool)
  | status (status : Option NodeStatus)

def step (sha256 : Sha256) (allocator : ComputeResourceAllocator) :
    Call → Reply × ComputeResourceAllocator
  | .allocateResources task nodeId idNow expiryNow =>
    (allocator.allocateResources sha256 task nodeId idNow expiryNow).map .allocated id
  | .releaseResources commitmentId => (.released, allocator.releaseResources commitmentId)
  | .checkAvailability task nodeId =>
    (.available (allocator.checkAvailability task nodeId), allocator)
  | .getNodeStatus nodeId => (.status (allocator.getNodeStatus nodeId), allocator)

/-! ### What an operation does -/

/-- The state after a granted allocation. -/
def grant (allocator : ComputeResourceAllocator) (status : NodeStatus)
    (commitment : ResourceCommitment) : ComputeResourceAllocator where
  commitments := allocator.commitments.assign commitment.commitmentId commitment
  nodeStatuses := allocator.nodeStatuses.assign commitment.nodeId (status.committed commitment)

/-- The state after the release of a live commitment. -/
def giveBack (allocator : ComputeResourceAllocator) (id : String)
    (commitment : ResourceCommitment) : ComputeResourceAllocator where
  commitments := allocator.commitments.erase id
  nodeStatuses := allocator.nodeStatuses.assign commitment.nodeId
    ((allocator.statusAt commitment.nodeId).released commitment)

/-- A commitment of all that a task requires, which the node has. -/
structure Granted (sha256 : Sha256) (status : NodeStatus) (task : ComputeTask) (now : Nanoseconds)
    (commitment : ResourceCommitment) : Prop where
  commitmentId : commitment.commitmentId = commitmentId sha256 commitment.nodeId now
  cpu : commitment.cpuCoresCommitted = requiredCpu task
  memory : commitment.memoryMbCommitted = requiredMemory task
  cpu_le : commitment.cpuCoresCommitted ≤ status.availableCpuCores
  memory_le : commitment.memoryMbCommitted ≤ status.availableMemoryMb

theorem commitmentId_ne_unavailable (sha256 : Sha256) (nodeId : String) (now : Nanoseconds) :
    commitmentId sha256 nodeId now ≠ "unavailable" := by
  intro h
  -- thirty-two characters against eleven
  have hlength := congrArg String.length h
  rw [commitmentId, length_hex, List.length_take, Vector.length_toList] at hlength
  exact absurd hlength (by decide)

theorem Granted.ne_unavailable {sha256 : Sha256} {status : NodeStatus} {task : ComputeTask}
    {now : Nanoseconds} {commitment : ResourceCommitment}
    (h : Granted sha256 status task now commitment) : commitment.commitmentId ≠ "unavailable" := by
  rw [h.commitmentId]
  exact commitmentId_ne_unavailable sha256 commitment.nodeId now

/-- Where the node has what the task requires, the minima take nothing away. -/
theorem granted_newCommitment (sha256 : Sha256) {status : NodeStatus} {task : ComputeTask}
    (hcpu : requiredCpu task ≤ status.availableCpuCores)
    (hmemory : requiredMemory task ≤ status.availableMemoryMb) (nodeId : String)
    (idNow expiryNow : Nanoseconds) :
    Granted sha256 status task idNow
      (newCommitment sha256 status task nodeId idNow expiryNow) := by
  have hcpuEq : (newCommitment sha256 status task nodeId idNow expiryNow).cpuCoresCommitted
      = requiredCpu task := Std.LawfulOrderLeftLeaningMin.min_eq_left _ _ hcpu
  have hmemoryEq : (newCommitment sha256 status task nodeId idNow expiryNow).memoryMbCommitted
      = requiredMemory task := Std.LawfulOrderLeftLeaningMin.min_eq_left _ _ hmemory
  refine ⟨rfl, hcpuEq, hmemoryEq, ?_, ?_⟩
  · rwa [hcpuEq]
  · rwa [hmemoryEq]

/-- An allocation is refused and changes nothing, or it grants the task what it
requires. -/
theorem allocateResources_cases (sha256 : Sha256) (allocator : ComputeResourceAllocator)
    (task : ComputeTask) (nodeId : String) (idNow expiryNow : Nanoseconds) :
    allocator.allocateResources sha256 task nodeId idNow expiryNow = (unavailable, allocator) ∨
    ∃ status commitment, allocator.nodeStatuses.lookup nodeId = some status ∧
      commitment.nodeId = nodeId ∧ Granted sha256 status task idNow commitment ∧
      allocator.allocateResources sha256 task nodeId idNow expiryNow
        = (commitment, allocator.grant status commitment) := by
  rw [allocateResources]
  cases havailable : allocator.checkAvailability task nodeId with
  | false => exact .inl rfl
  | true =>
    right
    rw [checkAvailability] at havailable
    cases hlookup : allocator.nodeStatuses.lookup nodeId with
    | none =>
      rw [hlookup] at havailable
      exact absurd havailable (by simp)
    | some status =>
      rw [hlookup] at havailable
      -- the check covers both minima
      obtain ⟨hcpu, hmemory, _⟩ := of_decide_eq_true havailable
      refine ⟨status, newCommitment sha256 status task nodeId idNow expiryNow, rfl, rfl,
        granted_newCommitment sha256 hcpu hmemory nodeId idNow expiryNow, ?_⟩
      rw [statusAt, hlookup]
      rfl

theorem releaseResources_of_none {allocator : ComputeResourceAllocator} {id : String}
    (h : allocator.commitments.lookup id = none) : allocator.releaseResources id = allocator := by
  rw [releaseResources, h]

theorem releaseResources_of_some {allocator : ComputeResourceAllocator} {id : String}
    {commitment : ResourceCommitment} (h : allocator.commitments.lookup id = some commitment) :
    allocator.releaseResources id = allocator.giveBack id commitment := by
  rw [releaseResources, h]
  rfl

end ComputeResourceAllocator

end Membra
