/-!
The sizes that the protocol allows in one request. What a device serves and
what a master asks for differ for register reads.
-/

namespace Modbus

def maxReadBits : Nat := 2000

def maxServeBits : Nat := 2000

def maxReadRegisters : Nat := 123

def maxServeRegisters : Nat := 125

def maxWriteCoils : Nat := 1968

def maxWriteRegisters : Nat := 123

/-- Bytes in one record of a file. -/
def maxRecordSize : UInt8 := 244

def maxPduLength : Nat := 253

end Modbus
