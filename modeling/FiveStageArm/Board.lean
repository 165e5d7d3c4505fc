/-
  FiveStageArm.Board — the machine's own bus: a read-only boot memory, a program memory
  and a data memory below 0x20000, a UART and a block of pins near the top of the address
  space.
-/

import FiveStageArm.Bus.Basic

namespace FiveStageArm

abbrev Board := Bus 5

namespace Board

abbrev bootRom : Fin 5 := 0
abbrev programRam : Fin 5 := 1
abbrev dataRam : Fin 5 := 2
abbrev uartSlot : Fin 5 := 3
abbrev gpioSlot : Fin 5 := 4

def uartBase : Address := 0xFFFF0000
def gpioBase : Address := 0xFFFF0100

def memoryMap : List (Region 5) :=
  [⟨0, 0x1000, bootRom⟩, ⟨0x1000, 0xF000, programRam⟩, ⟨0x10000, 0x10000, dataRam⟩,
    ⟨uartBase, 0x100, uartSlot⟩, ⟨gpioBase, 0x100, gpioSlot⟩]

def freshDevices : Vector Device 5 :=
  #v[.memory (.empty "boot_rom" 0x1000 false), .memory (.empty "program_ram" 0xF000 true),
    .memory (.empty "data_ram" 0x10000 true), .uart .idle, .gpio .idle]

def empty : Board := { Bus.ofDevices freshDevices with regions := memoryMap }

def uart (b : Board) : Uart :=
  match b.devices[uartSlot] with
  | .uart u => u
  | _ => .idle

def gpio (b : Board) : Gpio :=
  match b.devices[gpioSlot] with
  | .gpio g => g
  | _ => .idle

def setUart (b : Board) (u : Uart) : Board := b.setDevice uartSlot (.uart u)

def setGpio (b : Board) (g : Gpio) : Board := b.setDevice gpioSlot (.gpio g)

def inject (b : Board) (bytes : List Byte) : Board := b.setUart (b.uart.inject bytes)

def setInputs (b : Board) (w : Word) : Board := b.setGpio (b.gpio.setInputs w)

end Board

end FiveStageArm
